import Switchboard.Proofs.Relay
import Switchboard.Proofs.Tally

namespace Switchboard.Proofs.Tally
open Text Gateway
open Watch (EmptyAnswer assembled)
open Effect (Monitor Prog)

/-- Part of a stream has gone to the client, or nothing has. -/
def Aired (g g' : Sheet) : Prop := g' = g ∨ ∃ b ok, g' = g.speak 200 b ok

theorem Aired.trans {a b c : Sheet} (hab : Aired a b) (hbc : Aired b c) : Aired a c := by
  rcases hab with rfl | ⟨s, ok, rfl⟩
  · exact hbc
  · rcases hbc with rfl | ⟨s', ok', rfl⟩
    · exact .inr ⟨s, ok, rfl⟩
    · exact .inr ⟨s ++ s', ok && ok', by simp⟩

theorem Aired.speak {g g' : Sheet} (h : Aired g g') (b : Bytes) (ok : Bool) :
    ∃ b' ok', g'.speak 200 b ok = g.speak 200 b' ok' := by
  rcases h with rfl | ⟨s, ok', rfl⟩
  · exact ⟨b, ok, rfl⟩
  · exact ⟨s ++ b, ok' && ok, by simp⟩

/-- A frame that is held back although it ends its stream. -/
def EndsHeld (provider : String) (b : Bytes) : Prop :=
  let r := normalize provider b true
  b ≠ ascii "[DONE]" ∧ r.err = none ∧ r.n.text = "" ∧ r.n.finish = "length" ∧ r.done = true ∧
    provider ≠ "openai"

/-- The frame goes by unseen. -/
def Unseen (provider : String) (b : Bytes) : Prop :=
  ∀ bs, heldBack provider bs = true → heldBack provider (b :: bs) = true

/-- The handling of one event, against what the stream says. -/
structure Handled (provider : String) (st : StreamState) (b : Bytes) (g : Sheet)
    (r : StreamState × Option StreamStop) (g' : Sheet) : Prop where
  aired : Aired g g'
  lost : (∀ e, r.2 ≠ some (.error e)) → g'.lost = g.lost
  quiet : r.1.wrote = false → (∀ e, r.2 ≠ some (.error e)) → g' = g
  unseen : r.1.wrote = false → r.2 = none → st.wrote = false ∧ (EndsHeld provider b ∨ Unseen provider b)
  used : r.2 ≠ none → (follow provider st.finished st.out.usage [b]).2 = r.1.out.usage
  stop : ∀ s, r.2 = some s → g'.lost = false → ∀ bs,
    follow provider st.finished st.out.usage (b :: bs) = (decide (s = .complete), r.1.out.usage)
  next : r.2 = none → (st.wrote = false ∧ EndsHeld provider b) ∨ ∀ bs,
    follow provider st.finished st.out.usage (b :: bs) =
      follow provider r.1.finished r.1.out.usage bs
  wrote : st.wrote = true → r.1.wrote = true

section
variable {srv : Server} {A : Assume} {g : Sheet}

/-- The state after a frame has been read, before anything is done about it. -/
def reading (st : StreamState) (n : Normalized) : StreamState :=
  { st.noteFrame n with finished := st.finished || n.finish != "" }

theorem reading_usage (st : StreamState) (n : Normalized) :
    (reading st n).out.usage =
      if n.input ≠ 0 ∨ n.output ≠ 0 then usageOf n else st.out.usage := by
  unfold reading StreamState.noteFrame
  dsimp only
  split <;> rfl

/-- A frame that is in order: what the rest of the stream is followed from. -/
theorem follow_frame {provider : String} {st : StreamState} {b : Bytes} {r : Reading}
    (hb : b ≠ ascii "[DONE]") (hr : normalize provider b true = r) (herr : r.err = none)
    (hlate : ¬(st.finished = true ∧ r.n.text ≠ "")) (bs : List Bytes) :
    follow provider st.finished st.out.usage (b :: bs) =
      if r.done = true ∧ provider ≠ "openai" then
        ((reading st r.n).finished, (reading st r.n).out.usage)
      else follow provider (reading st r.n).finished (reading st r.n).out.usage bs := by
  rw [reading_usage]
  simp only [follow, hb, if_false, hr, herr, ne_eq, not_true_eq_false, hlate, reading]

theorem used_frame {provider : String} {st : StreamState} {b : Bytes} {r : Reading}
    (hb : b ≠ ascii "[DONE]") (hr : normalize provider b true = r) (herr : r.err = none)
    (hlate : ¬(st.finished = true ∧ r.n.text ≠ "")) :
    (follow provider st.finished st.out.usage [b]).2 = (reading st r.n).out.usage := by
  rw [follow_frame hb hr herr hlate]
  split <;> rfl

/-- What `frameEnd` makes of a frame is what the stream says. -/
theorem stop_frame {provider : String} {st : StreamState} (st' : StreamState) {b : Bytes} {r : Reading}
    (hb : b ≠ ascii "[DONE]") (hr : normalize provider b true = r) (herr : r.err = none)
    (hlate : ¬(st.finished = true ∧ r.n.text ≠ ""))
    (hfinished : st'.finished = (reading st r.n).finished)
    (hused : st'.out.usage = (reading st r.n).out.usage) :
    (∀ s, frameEnd provider st' r.done = some s → ∀ bs,
      follow provider st.finished st.out.usage (b :: bs) =
        (decide (s = .complete), st'.out.usage)) ∧
    (frameEnd provider st' r.done = none → ∀ bs,
      follow provider st.finished st.out.usage (b :: bs) =
        follow provider st'.finished st'.out.usage bs) := by
  have hframe := follow_frame hb hr herr hlate
  by_cases hd : r.done = true ∧ provider ≠ "openai"
  · have hend : frameEnd provider st' r.done =
        some (if st'.finished then .complete else .error .missingFinish) := by
      unfold frameEnd
      cases st'.finished <;> simp [hd]
    refine ⟨fun s hs bs => ?_, fun hn => by simp [hend] at hn⟩
    rw [hend] at hs
    cases hs
    rw [hframe bs, if_pos hd, ← hfinished, ← hused]
    cases st'.finished <;> simp
  · have hend : frameEnd provider st' r.done = none := by
      unfold frameEnd
      rw [if_neg (by simpa using hd)]
    refine ⟨fun s hs => by simp [hend] at hs, fun _ bs => ?_⟩
    rw [hframe bs, if_neg hd, ← hfinished, ← hused]

theorem unseen_quiet {provider : String} {b : Bytes} {r : Reading} (hb : b ≠ ascii "[DONE]")
    (hr : normalize provider b true = r) (herr : r.err = none) (ht : r.n.text = "")
    (hf : r.n.finish = "" ∨ r.n.finish = "length") (hd : ¬(r.done = true ∧ provider ≠ "openai")) :
    Unseen provider b := by
  intro bs h
  unfold heldBack
  simp only [hr, hb, herr, ht, ne_eq, not_true_eq_false, or_self, if_false, hd]
  rcases hf with hf | hf
  · simpa [hf] using h
  · simpa [hf] using h

theorem emitFrame_spec (k : Inference) (route : Route) {st : StreamState} {b : Bytes} {r : Reading}
    (hb : b ≠ ascii "[DONE]") (hr : normalize route.provider b true = r) (herr : r.err = none)
    (hlate : ¬(st.finished = true ∧ r.n.text ≠ "")) :
    (account srv A).wp (Handled route.provider st b g)
      (emitFrame k route (reading st r.n) r.n r.done) g := by
  have hused := used_frame hb hr herr hlate
  have hwrote : (reading st r.n).wrote = st.wrote := rfl
  unfold emitFrame
  split
  · dsimp only
    split
    · rename_i hheld
      obtain ⟨hw, ht, hf⟩ := hheld
      have hends : ¬ EndsHeld route.provider b → ¬(r.done = true ∧ route.provider ≠ "openai") :=
        fun hn hd => hn ⟨hb, by rw [hr]; exact ⟨herr, ht, hf, hd.1, hd.2⟩⟩
      refine ⟨.inl rfl, fun _ => rfl, fun _ _ => rfl, fun _ _ => ⟨hw, ?_⟩, by simp, by simp,
        fun _ => ?_, fun h => h⟩
      · by_cases hh : EndsHeld route.provider b
        · exact .inl hh
        · exact .inr (unseen_quiet hb hr herr ht (.inr hf) (hends hh))
      · by_cases hh : EndsHeld route.provider b
        · exact .inl ⟨hw, hh⟩
        · refine .inr (fun bs => ?_)
          rw [follow_frame hb hr herr hlate, if_neg (hends hh)]
    · rw [Monitor.wp_bind_iff, wp_write]
      intro sent
      split
      · rename_i hsent
        subst hsent
        obtain ⟨hstop, hnext⟩ := stop_frame ((reading st r.n).noteChunk r.n) hb hr herr hlate
          rfl rfl
        exact ⟨.inr ⟨_, _, rfl⟩, fun _ => by simp [Sheet.speak],
          fun h => absurd h (by simp [StreamState.noteChunk]),
          fun h => absurd h (by simp [StreamState.noteChunk]), fun _ => hused,
          fun s hs _ => hstop s hs, fun hn => .inr (hnext hn), fun _ => rfl⟩
      · rename_i hsent
        have hlost : (g.speak 200 (sseFrame (chunk k.id route r.n (unix k.start))) sent).lost = true := by
          simp [Sheet.speak, hsent]
        exact ⟨.inr ⟨_, _, rfl⟩, fun h => absurd rfl (h _), fun _ h => absurd rfl (h _), by simp,
          fun _ => hused, fun s _ hl => absurd hl (by simp [hlost]), by simp, fun h => h⟩
  · rename_i hempty
    simp only [not_or, not_not] at hempty
    obtain ⟨hstop, hnext⟩ := stop_frame (reading st r.n) hb hr herr hlate rfl rfl
    refine ⟨.inl rfl, fun _ => rfl, fun _ _ => rfl, fun hw hn => ⟨hwrote ▸ hw, .inr ?_⟩,
      fun _ => hused, fun s hs _ => hstop s hs, fun hn => .inr (hnext hn), fun h => h⟩
    refine unseen_quiet hb hr herr hempty.1 (.inl hempty.2) (fun hd => ?_)
    unfold frameEnd at hn
    rw [if_pos (by simpa using hd)] at hn
    split at hn <;> cases hn

theorem onEvent_spec (k : Inference) (route : Route) (st : StreamState) (b : Bytes) :
    (account srv A).wp (Handled route.provider st b g) (onEvent k route st b) g := by
  have herror : ∀ {st' : StreamState} {e : StreamError}, st'.wrote = st.wrote →
      (∀ bs, follow route.provider st.finished st.out.usage (b :: bs) = (false, st'.out.usage)) →
      Handled route.provider st b g (st', some (.error e)) g := by
    intro st' e hw hf
    refine ⟨.inl rfl, fun h => absurd rfl (h e), fun _ h => absurd rfl (h e), by simp,
      fun _ => by rw [hf], fun s hs _ bs => ?_, by simp, fun h => hw.trans h⟩
    cases hs
    simp [hf]
  unfold onEvent
  split
  · rename_i hdone
    split
    · rename_i hbad
      refine herror rfl (fun bs => ?_)
      rcases hbad with hp | hf
      · simp [follow, hdone, hp]
      · simp [follow, hdone, hf]
    · rename_i hok
      simp only [not_or, not_not, Bool.not_eq_false] at hok
      have hend : ∀ bs, follow route.provider st.finished st.out.usage (b :: bs) =
          (true, st.out.usage) := fun bs => by simp [follow, hdone, hok.1, hok.2]
      refine ⟨.inl rfl, fun _ => rfl, fun _ _ => rfl, by simp, fun _ => by rw [hend], ?_, by simp,
        fun h => h⟩
      intro s hs _ bs
      cases hs
      simp [hend]
  · rename_i hb
    dsimp only
    split
    · rename_i e herr
      exact herror rfl (fun bs => by simp [follow, hb, herr])
    · rename_i herr
      rw [Monitor.wp_bind_iff, wp_tellIf (by rfl)]
      split
      · rename_i hlate
        refine herror rfl (fun bs => ?_)
        have hused : ((st.noteFrame (normalize route.provider b true).n).out.usage) =
            (reading st (normalize route.provider b true).n).out.usage := rfl
        rw [hused, reading_usage]
        simp only [follow, hb, if_false, herr, ne_eq, not_true_eq_false]
        rw [if_pos hlate]
      · rename_i hlate
        exact emitFrame_spec k route hb rfl herr hlate

/-- The handling of a whole stream, as far as it got. -/
structure Relayed (provider : String) (st : StreamState) (bs : List Bytes) (g : Sheet)
    (r : StreamState × Option StreamStop) (g' : Sheet) : Prop where
  aired : Aired g g'
  quiet : r.2 = some .complete → r.1.wrote = false → g' = g
  lost : r.2 = some .complete → g'.lost = g.lost
  good : r.2 = some .complete → g.lost = false →
    (follow provider st.finished st.out.usage bs).1 = true
  used : (st.wrote = false → heldBack provider bs = false) →
    ∃ n, r.1.out.usage = (follow provider st.finished st.out.usage (bs.take n)).2 ∧
      (g'.lost = false → n = bs.length)
  whole : (st.wrote = false → heldBack provider bs = false) → g'.lost = false →
    (follow provider st.finished st.out.usage bs).1 = decide (r.2 = some .complete)
  wrote : st.wrote = true → r.1.wrote = true

theorem EndsHeld.heldBack {provider : String} {b : Bytes} (h : EndsHeld provider b) (bs : List Bytes) :
    heldBack provider (b :: bs) = true := by
  obtain ⟨hb, herr, ht, hf, hd, hp⟩ := h
  simp [Tally.heldBack, hb, herr, ht, hf, hd, hp]

theorem EndsHeld.follow {provider : String} {b : Bytes} (h : EndsHeld provider b) (finished : Bool)
    (u : TokenUsage) (bs : List Bytes) : (follow provider finished u (b :: bs)).1 = true := by
  obtain ⟨hb, herr, ht, hf, hd, hp⟩ := h
  simp [Tally.follow, hb, herr, ht, hf, hd, hp]

theorem Handled.relayed {provider : String} {st : StreamState} {b : Bytes} {bs : List Bytes}
    {g' : Sheet} {r : StreamState × Option StreamStop} {s : StreamStop}
    (h : Handled provider st b g r g') (hs : r.2 = some s) :
    Relayed provider st (b :: bs) g (r.1, some s) g' := by
  have hok : s = .complete → ∀ e, r.2 ≠ some (.error e) := by
    rintro rfl e
    simp [hs]
  refine ⟨h.aired, fun hc hw => ?_, fun hc => ?_, fun hc hg => ?_, fun _ => ?_, fun _ hl => ?_,
    h.wrote⟩
  · exact h.quiet hw (hok (Option.some.inj hc))
  · exact h.lost (hok (Option.some.inj hc))
  · have hl : g'.lost = false := (h.lost (hok (Option.some.inj hc))).trans hg
    rw [h.stop s hs hl]
    simpa using hc
  · cases hl : g'.lost with
    | true => exact ⟨1, by simp [h.used (by simp [hs])], by simp⟩
    | false =>
      refine ⟨(b :: bs).length, ?_, fun _ => rfl⟩
      rw [List.take_length, h.stop s hs hl]
  · rw [h.stop s hs hl]
    simp

/-- One event and then the rest. -/
theorem Handled.then {provider : String} {st st' : StreamState} {b : Bytes} {bs : List Bytes}
    {g' g'' : Sheet} {r : StreamState × Option StreamStop}
    (h : Handled provider st b g (st', none) g') (ht : Relayed provider st' bs g' r g'') :
    Relayed provider st (b :: bs) g r g'' := by
  have hlost : g'.lost = g.lost := h.lost (by simp)
  have hrest : (st.wrote = false → heldBack provider (b :: bs) = false) →
      (st'.wrote = false → heldBack provider bs = false) ∧
        ∀ cs, follow provider st.finished st.out.usage (b :: cs) =
          follow provider st'.finished st'.out.usage cs := by
    intro hheld
    constructor
    · intro hw
      obtain ⟨hst, hends | hunseen⟩ := h.unseen hw rfl
      · exact absurd (hheld hst) (by simp [hends.heldBack])
      · cases hbs : heldBack provider bs with
        | false => rfl
        | true => exact absurd (hheld hst) (by simp [hunseen bs hbs])
    · rcases h.next rfl with ⟨hst, hends⟩ | hnext
      · exact absurd (hheld hst) (by simp [hends.heldBack])
      · exact hnext
  refine ⟨h.aired.trans ht.aired, fun hc hw => ?_, fun hc => (ht.lost hc).trans hlost,
    fun hc hg => ?_, fun hheld => ?_, fun hheld hl => ?_, fun hw => ht.wrote (h.wrote hw)⟩
  · have hst : st'.wrote = false := by
      by_contra hst
      exact absurd (ht.wrote (by simpa using hst)) (by simp [hw])
    exact (ht.quiet hc hw).trans (h.quiet hst (by simp))
  · rcases h.next rfl with ⟨-, hends⟩ | hnext
    · exact hends.follow _ _ _
    · rw [hnext]
      exact ht.good hc (hlost.trans hg)
  · obtain ⟨hbs, hnext⟩ := hrest hheld
    obtain ⟨n, hn, hall⟩ := ht.used hbs
    exact ⟨n + 1, by rw [List.take_succ_cons, hnext]; exact hn, fun hl => by simp [hall hl]⟩
  · obtain ⟨hbs, hnext⟩ := hrest hheld
    rw [hnext]
    exact ht.whole hbs hl

theorem onEvents_spec (k : Inference) (route : Route) (bs : List Bytes) (st : StreamState)
    (g : Sheet) :
    (account srv A).wp (Relayed route.provider st bs g) (onEvents k route st bs) g := by
  induction bs generalizing st g with
  | nil =>
    exact ⟨.inl rfl, by simp, by simp, by simp, fun _ => ⟨0, rfl, fun _ => rfl⟩, fun _ _ => rfl,
      fun h => h⟩
  | cons b bs ih =>
    refine Monitor.wp_seq (onEvent_spec k route st b) ?_
    intro r g' hr
    obtain ⟨st', stop⟩ := r
    cases stop with
    | some s => exact hr.relayed rfl
    | none => exact Monitor.wp_mono (ih st' g') (fun _ _ ht => hr.then ht)

def isFailed : StreamEnd → Bool
  | .failed _ => true
  | _ => false

/-- What has become of a stream that was accepted, with nothing shown to the client
before. -/
structure Streamed (lib : Lib) (route : Route) (contentType : String) (body : Body) (g : Sheet)
    (r : StreamResult × StreamEnd) (g' : Sheet) : Prop where
  empty : r.2 = .empty → g' = g
  mistyped : streamBody lib route contentType body = none →
    isFailed r.2 = true ∧ r.1.usage = {} ∧ ∃ b ok, g' = g.speak 502 b ok
  aired : streamBody lib route contentType body ≠ none → r.2 ≠ .empty →
    ∃ b ok, g' = g.speak 200 b ok
  good : isFailed r.2 = false → ∃ b, streamBody lib route contentType body = some b ∧
    (follow route.provider false {} (readSSE b).1).1 = true
  bad : isFailed r.2 = true → g'.lost = false → ∀ b,
    streamBody lib route contentType body = some b → heldBack route.provider (readSSE b).1 = false →
      (follow route.provider false {} (readSSE b).1).1 = false
  used : ∀ b, streamBody lib route contentType body = some b →
    heldBack route.provider (readSSE b).1 = false →
    ∃ n, r.1.usage = (follow route.provider false {} ((readSSE b).1.take n)).2 ∧
      (g'.lost = false → n = (readSSE b).1.length)

/-- A stream is only about what goes to the client. -/
theorem Streamed.kept {lib : Lib} {route : Route} {contentType : String} {body : Body} {g' : Sheet}
    {r : StreamResult × StreamEnd} (h : Streamed lib route contentType body g r g') :
    g'.sent = g.sent ∧ g'.could = g.could ∧ g'.prior = g.prior := by
  by_cases hb : streamBody lib route contentType body = none
  · obtain ⟨-, -, s, ok, rfl⟩ := h.mistyped hb
    exact ⟨rfl, rfl, rfl⟩
  · by_cases he : r.2 = .empty
    · obtain rfl := h.empty he
      exact ⟨rfl, rfl, rfl⟩
    · obtain ⟨s, ok, rfl⟩ := h.aired hb he
      exact ⟨rfl, rfl, rfl⟩

/-- The end of a stream that was relayed to its end. -/
structure Closed (st : StreamState) (g : Sheet) (r : StreamResult × StreamEnd) (g' : Sheet) : Prop where
  out : r.1 = st.out
  empty : r.2 = .empty → st.wrote = false ∧ g' = g
  aired : r.2 ≠ .empty → ∃ b ok, g' = g.speak 200 b ok
  bad : isFailed r.2 = true → g'.lost = true

theorem sendDone_spec (st : StreamState) :
    (account srv A).wp (fun r g' => r.2 ≠ .empty ∧ Closed st g r g') (sendDone st) g := by
  unfold sendDone
  rw [Monitor.wp_bind_iff, wp_write]
  intro sent
  cases sent with
  | true => exact ⟨by simp, rfl, by simp, fun _ => ⟨_, _, rfl⟩, by simp [isFailed]⟩
  | false => exact ⟨by simp, rfl, by simp, fun _ => ⟨_, _, rfl⟩, fun _ => by simp [Sheet.speak]⟩

theorem closeStream_spec (st : StreamState) : (account srv A).wp (Closed st g) (closeStream st) g := by
  unfold closeStream
  split
  · exact Monitor.wp_mono (sendDone_spec st) (fun _ _ h => h.2)
  · split
    · rename_i hw
      exact ⟨rfl, fun _ => ⟨hw, rfl⟩, fun h => absurd rfl h, by simp [isFailed]⟩
    · rw [Monitor.wp_bind_iff, wp_write]
      intro sent
      cases sent with
      | false => exact ⟨rfl, by simp, fun _ => ⟨_, _, rfl⟩, fun _ => by simp [Sheet.speak]⟩
      | true =>
        refine Monitor.wp_mono (sendDone_spec st) ?_
        intro r g' h
        obtain ⟨hne, h⟩ := h
        refine ⟨h.out, fun he => absurd he hne, fun _ => ?_, h.bad⟩
        obtain ⟨b, ok, rfl⟩ := h.aired hne
        exact ⟨_, _, Sheet.speak_speak _ _ _ _ _ _ _⟩

/-- A stream that was interrupted: the client is told. -/
theorem Relayed.interrupted {lib : Lib} {route : Route} {contentType : String} {body b : Body}
    {st : StreamState} {stop : Option StreamStop} {g' : Sheet} {e : StreamError} {said : Bytes} {ok : Bool}
    (h : Relayed route.provider {} (readSSE b).1 g (st, stop) g') (hs : stop ≠ some .complete)
    (hb : streamBody lib route contentType body = some b) :
    Streamed lib route contentType body g (st.out, .failed e) (g'.speak 200 said ok) := by
  have hlost : (g'.speak 200 said ok).lost = false → g'.lost = false := by
    simp only [Sheet.speak, Bool.or_eq_false_iff]
    exact fun hl => hl.1
  refine ⟨by simp, by simp [hb], fun _ _ => h.aired.speak said ok, by simp [isFailed],
    fun _ hl b' hb' hheld => ?_, fun b' hb' hheld => ?_⟩
  · obtain rfl : b = b' := Option.some.inj (hb.symm.trans hb')
    rw [h.whole (fun _ => hheld) (hlost hl)]
    simpa using hs
  · obtain rfl : b = b' := Option.some.inj (hb.symm.trans hb')
    obtain ⟨n, hn, hall⟩ := h.used (fun _ => hheld)
    exact ⟨n, hn, fun hl => hall (hlost hl)⟩

theorem relay_spec (k : Inference) (route : Route) (b : Body) {contentType : String} {body : Body}
    (hb : streamBody k.srv.lib route contentType body = some b) (hg : g.lost = false) :
    (account srv A).wp (Streamed k.srv.lib route contentType body g) (relay k route b) g := by
  unfold relay
  simp only [Monitor.wp_bind_iff, wp_setHeader]
  refine Monitor.wp_mono (onEvents_spec k route (readSSE b).1 {} g) ?_
  intro r g' hr
  obtain ⟨st, stop⟩ := r
  cases stop with
  | none =>
    unfold Gateway.interrupted
    simp only [Monitor.wp_bind_iff, wp_write]
    exact fun sent => hr.interrupted (by simp) hb
  | some s =>
    cases s with
    | error e =>
      unfold Gateway.interrupted
      simp only [Monitor.wp_bind_iff, wp_write]
      exact fun sent => hr.interrupted (by simp) hb
    | complete =>
      refine Monitor.wp_mono (closeStream_spec st) ?_
      intro r g'' hc
      have hgood := hr.good rfl hg
      have hl' : g'.lost = false := (hr.lost rfl).trans hg
      refine ⟨fun he => ?_, by simp [hb], fun _ hne => ?_, fun _ => ⟨b, hb, hgood⟩,
        fun hf hl => absurd (hc.bad hf) (by simp [hl]), fun b' hb' hheld => ?_⟩
      · obtain ⟨hw, hg''⟩ := hc.empty he
        exact hg''.trans (hr.quiet rfl hw)
      · obtain ⟨s, ok, rfl⟩ := hc.aired hne
        exact hr.aired.speak s ok
      · obtain rfl : b = b' := Option.some.inj (hb.symm.trans hb')
        obtain ⟨n, hn, hall⟩ := hr.used (fun _ => hheld)
        exact ⟨n, by rw [hc.out]; exact hn, fun _ => hall hl'⟩

theorem stream_spec (k : Inference) (route : Route) (contentType : String) (body : Body)
    (hg : g.lost = false) :
    (account srv A).wp (Streamed k.srv.lib route contentType body g) (stream k route contentType body)
      g := by
  unfold stream
  split
  · rename_i hnone
    rw [Monitor.wp_bind_iff, wp_problem]
    intro ok
    exact ⟨by simp, fun _ => ⟨rfl, rfl, _, _, rfl⟩, fun h => absurd hnone h, by simp [isFailed],
      fun _ _ b hb => by simp [hnone] at hb, fun b hb => by simp [hnone] at hb⟩
  · rename_i b hb
    exact relay_spec k route b hb hg

/-- A stream that is said to be empty is an empty answer. -/
theorem stream_returns (k : Inference) (route : Route) (contentType : String) (body : Body) :
    (stream k route contentType body).Returns (fun r => r.2 = .empty →
      ∃ b reasons, streamBody k.srv.lib route contentType body = some b ∧
        assembled route.provider (readSSE b).1 = some ("", reasons) ∧ reasons ≠ [] ∧
        ∀ f ∈ reasons, f = "length") :=
  Monitor.returns_of_wp (Watch.rules_may k.srv) (Watch.stream_spec (g := {}) k route contentType body)
    (fun _ _ h he => (h.empty he).2)

/-- A stream that is held back to its end has no text, and its length was reached. -/
theorem assembled_of_heldBack {provider : String} {bs : List Bytes} (h : heldBack provider bs = true) :
    ∃ reasons, assembled provider bs = some ("", reasons) ∧ reasons ≠ [] ∧
      ∀ f ∈ reasons, f = "length" := by
  induction bs with
  | nil => cases h
  | cons b bs ih =>
    unfold heldBack at h
    dsimp only at h
    split at h
    · cases h
    rename_i hok
    simp only [not_or, not_not] at hok
    obtain ⟨hb, herr, ht⟩ := hok
    split at h
    · cases h
    rename_i hf
    split at h
    · rename_i hd
      have hlength : (normalize provider b true).n.finish = "length" := by simpa using h
      exact ⟨["length"], by simp [assembled, hb, herr, ht, hd, hlength], by simp, by simp⟩
    · rename_i hd
      obtain ⟨reasons, ha, hne, hall⟩ := ih h
      by_cases hfinish : (normalize provider b true).n.finish = ""
      · exact ⟨reasons, by simp [assembled, hb, herr, ht, hd, hfinish, ha], hne, hall⟩
      · have hlength : (normalize provider b true).n.finish = "length" := by
          by_contra hn
          exact hf ⟨hfinish, hn⟩
        exact ⟨"length" :: reasons, by simp [assembled, hb, herr, ht, hd, hlength, ha], by simp,
          by simpa using hall⟩

/-- A stream of which nothing has been shown, and that has finished if something is held
back. -/
structure Mute (st : StreamState) : Prop where
  wrote : st.wrote = false
  finished : st.finished = st.pending.isSome

/-- A frame of an empty stream. -/
theorem onEvent_empty {k : Inference} {route : Route} {st : StreamState} {b : Bytes} (h : Mute st)
    (hb : b ≠ ascii "[DONE]") (herr : (normalize route.provider b true).err = none)
    (ht : (normalize route.provider b true).n.text = "")
    (hf : (normalize route.provider b true).n.finish = "" ∨
      (normalize route.provider b true).n.finish = "length") :
    (onEvent k route st b).Returns (fun r => Mute r.1 ∧
      (r.1.finished = (st.finished || (normalize route.provider b true).n.finish != "")) ∧
      r.2 = if (normalize route.provider b true).n.finish = "" then
        frameEnd route.provider r.1 (normalize route.provider b true).done else none) := by
  unfold onEvent
  rw [if_neg hb]
  simp only [herr]
  refine Prog.Returns.bind (Prog.returns_any _) (fun _ _ => ?_)
  rw [if_neg (by simp [ht])]
  unfold emitFrame
  rcases hf with hf | hf
  · rw [if_neg (by simp [ht, hf])]
    refine ⟨⟨h.wrote, ?_⟩, rfl, by rw [if_pos hf]⟩
    have hfinished := h.finished
    simpa [hf, StreamState.noteFrame] using hfinished
  · rw [if_pos (by simp [hf])]
    dsimp only
    rw [if_pos ⟨h.wrote, ht, hf⟩]
    refine ⟨⟨h.wrote, ?_⟩, rfl, by rw [if_neg (by simp [hf])]⟩
    simp [hf]

/-- An empty stream that is not held back to its end is read to it. -/
theorem onEvents_empty {k : Inference} {route : Route} {bs : List Bytes} {st : StreamState}
    {reasons : List String} (h : Mute st)
    (ha : assembled route.provider bs = some ("", reasons)) (hall : ∀ f ∈ reasons, f = "length")
    (hne : reasons ≠ [] ∨ st.finished = true) (hheld : heldBack route.provider bs = false) :
    (onEvents k route st bs).Returns (fun r => Mute r.1 ∧ r.1.finished = true ∧ r.2 = some .complete) := by
  induction bs generalizing st reasons with
  | nil => cases ha
  | cons b bs ih =>
    unfold onEvents
    unfold assembled at ha
    split at ha
    · rename_i hb
      split at ha
      · rename_i hp
        cases ha
        have hfin : st.finished = true := hne.resolve_left (fun hn => hn rfl)
        simp only [onEvent, hb, if_true, hp, hfin, ne_eq, not_true_eq_false, Bool.true_eq_false, or_self,
          if_false]
        exact ⟨h, hfin, rfl⟩
      · cases ha
    · rename_i hb
      dsimp only at ha
      split at ha
      · cases ha
      rename_i herr
      have herr : (normalize route.provider b true).err = none := by simpa using herr
      unfold heldBack at hheld
      dsimp only at hheld
      split at ha
      · rename_i hd
        obtain ⟨ht, hreasons⟩ := Prod.mk.inj (Option.some.inj ha)
        have hf : (normalize route.provider b true).n.finish = "" := by
          by_contra hf
          have hlength := hall (normalize route.provider b true).n.finish (by simp [← hreasons, hf])
          simp [hb, herr, ht, hlength, hd] at hheld
        have hfin : st.finished = true := hne.resolve_left (fun hn => hn (by simp [← hreasons, hf]))
        refine Prog.Returns.bind (onEvent_empty h hb herr ht (.inl hf)) ?_
        rintro ⟨st', stop⟩ ⟨hmute, hst', hstop⟩
        have hfin' : st'.finished = true := by simpa [hfin] using hst'
        have hcomplete : stop = some .complete := by
          simpa [hf, frameEnd, hd, hfin'] using hstop
        subst hcomplete
        exact ⟨hmute, hfin', rfl⟩
      · rename_i hd
        obtain ⟨⟨text, rest⟩, ha', heq⟩ := Option.map_eq_some_iff.mp ha
        obtain ⟨happend, hreasons⟩ := Prod.mk.inj heq
        obtain ⟨ht, rfl⟩ := String.append_eq_empty_iff.mp happend
        have hf : (normalize route.provider b true).n.finish = "" ∨
            (normalize route.provider b true).n.finish = "length" := by
          by_cases hf : (normalize route.provider b true).n.finish = ""
          · exact .inl hf
          · exact .inr (hall _ (by simp [← hreasons, hf]))
        refine Prog.Returns.bind (onEvent_empty h hb herr ht hf) ?_
        rintro ⟨st', stop⟩ ⟨hmute, hst', hstop⟩
        have hnone : stop = none := by
          refine hstop.trans ?_
          split
          · unfold frameEnd
            rw [if_neg (by simpa using hd)]
          · rfl
        subst hnone
        refine ih hmute ha' (fun f hmem => hall f (by rw [← hreasons]; exact List.mem_append_right _ hmem))
          ?_ ?_
        · rcases hf with hf | hf
          · rcases hne with hne | hfin
            · exact .inl (by simpa [← hreasons, hf] using hne)
            · exact .inr (by simpa [hfin] using hst')
          · exact .inr (by simpa [hf] using hst')
        · rcases hf with hf | hf
          · simpa [hb, herr, ht, hf, hd] using hheld
          · simpa [hb, herr, ht, hf, hd] using hheld

/-- An empty answer is said to be one, unless it is held back to its end. -/
theorem stream_empty (k : Inference) {route : Route} {contentType : String} {body b : Body}
    {reasons : List String} (hb : streamBody k.srv.lib route contentType body = some b)
    (ha : assembled route.provider (readSSE b).1 = some ("", reasons)) (hne : reasons ≠ [])
    (hall : ∀ f ∈ reasons, f = "length") (hheld : heldBack route.provider (readSSE b).1 = false) :
    (stream k route contentType body).Returns (fun r => r.2 = .empty) := by
  unfold stream
  rw [hb]
  refine Prog.Returns.bind (Prog.returns_any _) (fun _ _ => Prog.Returns.bind (Prog.returns_any _)
    (fun _ _ => Prog.Returns.bind (Prog.returns_any _) (fun _ _ => ?_)))
  refine Prog.Returns.bind (onEvents_empty ⟨rfl, rfl⟩ ha hall (.inl hne) hheld) ?_
  rintro ⟨st, stop⟩ ⟨hmute, hfin, hstop⟩
  dsimp only at hstop
  subst hstop
  have hpending : st.pending.isSome = true := hmute.finished ▸ hfin
  obtain ⟨ch, hch⟩ := Option.isSome_iff_exists.mp hpending
  dsimp only
  unfold closeStream
  rw [hch]
  dsimp only
  rw [if_pos hmute.wrote]
  rfl

theorem stream_ends (k : Inference) (route : Route) (contentType : String) (body : Body) :
    (stream k route contentType body).Returns (fun r => ∀ b reasons,
      streamBody k.srv.lib route contentType body = some b →
      assembled route.provider (readSSE b).1 = some ("", reasons) → reasons ≠ [] →
      (∀ f ∈ reasons, f = "length") → heldBack route.provider (readSSE b).1 = false →
      r.2 = .empty) := by
  by_cases h : ∃ b reasons, streamBody k.srv.lib route contentType body = some b ∧
      assembled route.provider (readSSE b).1 = some ("", reasons) ∧ reasons ≠ [] ∧
      (∀ f ∈ reasons, f = "length") ∧ heldBack route.provider (readSSE b).1 = false
  · obtain ⟨b, reasons, hb, ha, hne, hall, hheld⟩ := h
    exact (stream_empty k hb ha hne hall hheld).mono (fun _ hr _ _ _ _ _ _ _ => hr)
  · exact (Prog.returns_any _).mono (fun _ _ b reasons hb ha hne hall hheld =>
      absurd ⟨b, reasons, hb, ha, hne, hall, hheld⟩ h)

theorem HeldBack.empty {lib : Lib} {u : Upstream} {contentType : String} {body : Body}
    (h : HeldBack lib u contentType body) : EmptyAnswer lib u contentType body := by
  obtain ⟨hs, b, hb, hheld⟩ := h
  obtain ⟨reasons, ha, hne, hall⟩ := assembled_of_heldBack hheld
  simp only [EmptyAnswer, hs, if_true]
  exact ⟨b, reasons, hb, ha, hne, hall⟩

end

end Switchboard.Proofs.Tally
