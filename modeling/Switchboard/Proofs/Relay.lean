import Switchboard.Proofs.Watch

namespace Switchboard.Proofs.Watch
open Text Gateway Entry
open Effect (Monitor Prog)

variable {srv : Server} {known : String → Prop} {g : Ghost}

@[simp] theorem wp_tellIf {b : Bool} {o : Tell} {Q : Unit → Ghost → Prop} :
    (watch srv known).wp Q (tellIf b o) g ↔ Q () g := by
  cases b <;> simp [tellIf]

@[simp] theorem wp_problem {status : Int} {msg : String} {Q : Unit → Ghost → Prop} :
    (watch srv known).wp Q (problem status msg) g ↔ Q () { g with wrote := true } := by
  simp [problem]

/-- The client has been written to, or nothing has happened. -/
def Wrote (g g' : Ghost) : Prop := g' = g ∨ g' = { g with wrote := true }

/-- What an event that was handled without a write says about the whole stream: it ends
it, it is part of it without being seen, or it says that the length was reached. -/
def Silent (provider : String) (st : StreamState) (b : Bytes)
    (r : StreamState × Option StreamStop) : Prop :=
  (r.2 = some .complete ∧ r.1.pending = st.pending ∧
    ∀ bs, assembled provider (b :: bs) = some ("", [])) ∨
  (r.2 = none ∧ r.1.pending = st.pending ∧ ∀ bs, assembled provider (b :: bs) = assembled provider bs) ∨
  (r.2 = none ∧ ∀ bs, assembled provider (b :: bs) = some ("", ["length"])) ∨
  (r.2 = none ∧ ∀ bs, assembled provider (b :: bs) =
    (assembled provider bs).map (fun a => (a.1, "length" :: a.2)))

/-- The handling of one event. -/
structure Handled (provider : String) (st : StreamState) (b : Bytes) (g : Ghost)
    (r : StreamState × Option StreamStop) (g' : Ghost) : Prop where
  ghost : Wrote g g'
  wrote : st.wrote = true → r.1.wrote = true
  silent : r.1.wrote = false → (∀ e, r.2 ≠ some (.error e)) → g' = g ∧ Silent provider st b r
  whole : (∀ e, r.2 ≠ some (.error e)) → ∀ bs, (r.2 = none → (assembled provider bs).isSome) →
    (assembled provider (b :: bs)).isSome

theorem Handled.error {provider : String} {st st' : StreamState} {b : Bytes} {e : StreamError}
    {g g' : Ghost} (hg : Wrote g g') (hw : st.wrote = true → st'.wrote = true) :
    Handled provider st b g (st', some (.error e)) g' :=
  ⟨hg, hw, fun _ h => absurd rfl (h e), fun h => absurd rfl (h e)⟩

theorem frameEnd_none {provider : String} {st : StreamState} {done : Bool}
    (hd : ¬(done = true ∧ provider ≠ "openai")) : frameEnd provider st done = none := by
  unfold frameEnd
  rw [if_neg (by simpa using hd)]

/-- A frame that was read leaves the stream whole if it ends it or the rest is whole. -/
theorem whole_frame {provider : String} {b : Bytes} {bs : List Bytes} {r : Reading}
    (hb : b ≠ ascii "[DONE]") (hr : normalize provider b true = r) (herr : r.err = none)
    (hbs : ¬(r.done = true ∧ provider ≠ "openai") → (assembled provider bs).isSome) :
    (assembled provider (b :: bs)).isSome := by
  by_cases hd : r.done = true ∧ provider ≠ "openai"
  · simp [assembled, hb, hr, herr, hd]
  · simp [assembled, hb, hr, herr, hd, hbs hd]

/-- A frame without text or reason: at most it ends the stream. -/
theorem silent_quiet {provider : String} {st st' : StreamState} {b : Bytes} {r : Reading}
    (hb : b ≠ ascii "[DONE]") (hr : normalize provider b true = r) (herr : r.err = none)
    (ht : r.n.text = "") (hf : r.n.finish = "") (hp : st'.pending = st.pending)
    (hend : ∀ e, frameEnd provider st' r.done ≠ some (.error e)) :
    Silent provider st b (st', frameEnd provider st' r.done) := by
  by_cases hd : r.done = true ∧ provider ≠ "openai"
  · have hcomplete : frameEnd provider st' r.done = some .complete := by
      unfold frameEnd at hend ⊢
      cases hfin : st'.finished <;> simp_all
    refine .inl ⟨hcomplete, hp, fun bs => ?_⟩
    simp [assembled, hb, hr, herr, hd, ht, hf]
  · refine .inr (.inl ⟨frameEnd_none hd, hp, fun bs => ?_⟩)
    simp [assembled, hb, hr, herr, hd, ht, hf]

/-- A frame that only says that the length was reached, held back. -/
theorem silent_pending {provider : String} {st st' : StreamState} {b : Bytes} {r : Reading}
    (hb : b ≠ ascii "[DONE]") (hr : normalize provider b true = r) (herr : r.err = none)
    (ht : r.n.text = "") (hf : r.n.finish = "length") : Silent provider st b (st', none) := by
  by_cases hd : r.done = true ∧ provider ≠ "openai"
  · refine .inr (.inr (.inl ⟨rfl, fun bs => ?_⟩))
    simp [assembled, hb, hr, herr, hd, ht, hf]
  · refine .inr (.inr (.inr ⟨rfl, fun bs => ?_⟩))
    simp [assembled, hb, hr, herr, hd, ht, hf]

theorem emitFrame_spec (k : Inference) (route : Route) {st st' : StreamState} {b : Bytes}
    {r : Reading} (hb : b ≠ ascii "[DONE]") (hr : normalize route.provider b true = r)
    (herr : r.err = none) (hp : st'.pending = st.pending) (hw : st'.wrote = st.wrote) :
    (watch srv known).wp (Handled route.provider st b g) (emitFrame k route st' r.n r.done) g := by
  unfold emitFrame
  split
  · dsimp only
    split
    · rename_i hheld
      obtain ⟨hwrote, ht, hf⟩ := hheld
      exact ⟨.inl rfl, fun h => hw.trans h, fun _ _ => ⟨rfl, silent_pending hb hr herr ht hf⟩,
        fun _ bs hbs => whole_frame hb hr herr (fun _ => hbs rfl)⟩
    · simp only [Monitor.wp_bind_iff, wp_write]
      intro sent
      split
      · exact ⟨.inr rfl, fun _ => rfl, fun h => absurd h (by simp [StreamState.noteChunk]),
          fun _ bs hbs => whole_frame hb hr herr (fun hd => hbs (frameEnd_none hd))⟩
      · exact .error (.inr rfl) (fun h => hw.trans h)
  · rename_i hempty
    simp only [not_or, not_not] at hempty
    refine ⟨.inl rfl, fun h => hw.trans h, fun _ hend => ⟨rfl, ?_⟩,
      fun _ bs hbs => whole_frame hb hr herr (fun hd => hbs (frameEnd_none hd))⟩
    exact silent_quiet hb hr herr hempty.1 hempty.2 hp hend

theorem onEvent_spec (k : Inference) (route : Route) (st : StreamState) (b : Bytes) :
    (watch srv known).wp (Handled route.provider st b g) (onEvent k route st b) g := by
  unfold onEvent
  split
  · rename_i hdone
    split
    · exact .error (.inl rfl) (fun h => h)
    · rename_i hok
      simp only [not_or, not_not] at hok
      have hend : ∀ bs, assembled route.provider (b :: bs) = some ("", []) := fun bs => by
        simp [assembled, hdone, hok.1]
      exact ⟨.inl rfl, fun h => h, fun _ _ => ⟨rfl, .inl ⟨rfl, rfl, hend⟩⟩,
        fun _ bs _ => by simp [hend]⟩
  · rename_i hb
    dsimp only
    split
    · exact .error (.inl rfl) (fun h => h)
    · rename_i herr
      simp only [Monitor.wp_bind_iff, wp_tellIf]
      split
      · exact .error (.inl rfl) (fun h => h)
      · exact emitFrame_spec k route hb rfl herr rfl rfl

/-- The handling of all events of a stream, as far as it got. -/
structure Relayed (provider : String) (st : StreamState) (bs : List Bytes) (g : Ghost)
    (r : StreamState × Option StreamStop) (g' : Ghost) : Prop where
  ghost : Wrote g g'
  wrote : st.wrote = true → r.1.wrote = true
  silent : r.2 = some .complete → r.1.wrote = false → g' = g ∧
    ∃ reasons, assembled provider bs = some ("", reasons) ∧ (∀ f ∈ reasons, f = "length") ∧
      (r.1.pending.isSome = true → st.pending.isSome = true ∨ reasons ≠ [])
  whole : r.2 = some .complete → (assembled provider bs).isSome

theorem Wrote.trans {a b c : Ghost} (hab : Wrote a b) (hbc : Wrote b c) : Wrote a c := by
  rcases hab with rfl | rfl
  · exact hbc
  · rcases hbc with rfl | rfl
    · exact .inr rfl
    · exact .inr rfl

theorem Handled.relayed {provider : String} {st : StreamState} {b : Bytes} {bs : List Bytes}
    {g g' : Ghost} {r : StreamState × Option StreamStop} {s : StreamStop}
    (h : Handled provider st b g r g') (hs : r.2 = some s) :
    Relayed provider st (b :: bs) g (r.1, some s) g' := by
  refine ⟨h.ghost, h.wrote, fun hc hw => ?_, fun hc => ?_⟩
  all_goals
    have hcomplete : s = .complete := Option.some.inj hc
    subst hcomplete
  case refine_2 => exact h.whole (by simp [hs]) bs (by simp [hs])
  obtain ⟨hg, hsilent⟩ := h.silent hw (by simp [hs])
  rcases hsilent with ⟨-, hp, ha⟩ | ⟨hn, -⟩ | ⟨hn, -⟩ | ⟨hn, -⟩
  · exact ⟨hg, [], ha bs, by simp, fun hpend => .inl (hp ▸ hpend)⟩
  all_goals simp [hs] at hn

/-- One event and then the rest: what both say about the stream together. -/
theorem Handled.then {provider : String} {st st' : StreamState} {b : Bytes} {bs : List Bytes}
    {g g' g'' : Ghost} {r : StreamState × Option StreamStop}
    (h : Handled provider st b g (st', none) g') (ht : Relayed provider st' bs g' r g'') :
    Relayed provider st (b :: bs) g r g'' := by
  refine ⟨h.ghost.trans ht.ghost, fun hw => ht.wrote (h.wrote hw), fun hc hw => ?_,
    fun hc => h.whole (by simp) bs (fun _ => ht.whole hc)⟩
  obtain ⟨hg', reasons, ha, hall, hpend⟩ := ht.silent hc hw
  have hw' : st'.wrote = false := by
    cases hst : st'.wrote with
    | false => rfl
    | true => exact absurd (ht.wrote hst) (by simp [hw])
  obtain ⟨hg, hsilent⟩ := h.silent hw' (by simp)
  refine ⟨hg'.trans hg, ?_⟩
  rcases hsilent with ⟨hn, -⟩ | ⟨-, hp, hb⟩ | ⟨-, hb⟩ | ⟨-, hb⟩
  · simp at hn
  · exact ⟨reasons, by rw [hb, ha], hall, by rw [← hp]; exact hpend⟩
  · exact ⟨["length"], hb bs, by simp, by simp⟩
  · exact ⟨"length" :: reasons, by rw [hb, ha]; rfl, by simpa using hall, by simp⟩

theorem onEvents_spec (k : Inference) (route : Route) (bs : List Bytes) (st : StreamState)
    (g : Ghost) :
    (watch srv known).wp (Relayed route.provider st bs g) (onEvents k route st bs) g := by
  induction bs generalizing st g with
  | nil => exact ⟨.inl rfl, fun h => h, by simp, by simp⟩
  | cons b bs ih =>
    refine Monitor.wp_seq (onEvent_spec k route st b) ?_
    intro r g' hr
    obtain ⟨st', stop⟩ := r
    cases stop with
    | some s => exact hr.relayed rfl
    | none => exact Monitor.wp_mono (ih st' g') (fun _ _ ht => hr.then ht)

/-- A stream that ends empty has left the client alone and was an empty answer. Any
other may have written to it, and one that is complete came to its end. -/
structure Streamed (lib : Lib) (route : Route) (contentType : String) (body : Body) (g : Ghost)
    (r : StreamResult × StreamEnd) (g' : Ghost) : Prop where
  ghost : Wrote g g'
  empty : r.2 = .empty → g' = g ∧ ∃ b reasons, streamBody lib route contentType body = some b ∧
    assembled route.provider (readSSE b).1 = some ("", reasons) ∧ reasons ≠ [] ∧
    ∀ f ∈ reasons, f = "length"
  complete : r.2 = .complete → ∃ b, streamBody lib route contentType body = some b ∧
    (assembled route.provider (readSSE b).1).isSome

theorem wp_sendDone {st : StreamState} {Q : StreamResult × StreamEnd → Ghost → Prop}
    (h : ∀ e, e ≠ .empty → Q (st.out, e) { g with wrote := true }) :
    (watch srv known).wp Q (sendDone st) g := by
  unfold sendDone
  simp only [Monitor.wp_bind_iff, wp_write]
  intro sent
  split
  · exact h _ (by simp)
  · exact h _ (by simp)

theorem wp_interrupted {k : Inference} {st : StreamState} {e : StreamError}
    {Q : StreamResult × StreamEnd → Ghost → Prop}
    (h : Q (st.out, .failed e) { g with wrote := true }) :
    (watch srv known).wp Q (interrupted k st e) g := by
  unfold interrupted
  simp only [Monitor.wp_bind_iff, wp_write]
  exact fun _ => h

theorem closeStream_spec {st : StreamState} {P : Prop}
    (hp : st.wrote = false → st.pending.isSome = true → P) :
    (watch srv known).wp (fun r g' => Wrote g g' ∧ (r.2 = .empty → g' = g ∧ P)) (closeStream st) g := by
  unfold closeStream
  split
  · refine wp_sendDone (fun e he => ⟨.inr rfl, fun h => absurd h he⟩)
  · rename_i ch hch
    split
    · rename_i hw
      exact ⟨.inl rfl, fun _ => ⟨rfl, hp hw (by simp [hch])⟩⟩
    · simp only [Monitor.wp_bind_iff, wp_write]
      intro sent
      split
      · exact wp_sendDone (fun e he => ⟨.inr rfl, fun h => absurd h he⟩)
      · exact ⟨.inr rfl, by simp⟩

theorem relay_spec (k : Inference) (route : Route) (b : Body) {contentType : String} {body : Body}
    (hb : streamBody k.srv.lib route contentType body = some b) :
    (watch srv known).wp (Streamed k.srv.lib route contentType body g) (relay k route b) g := by
  unfold relay
  simp only [Monitor.wp_bind_iff, wp_setHeader]
  refine Monitor.wp_mono (onEvents_spec k route (readSSE b).1 {} g) ?_
  intro r g' hr
  obtain ⟨st, stop⟩ := r
  cases stop with
  | none =>
    exact wp_interrupted ⟨hr.ghost.trans (.inr rfl), by simp, by simp⟩
  | some s =>
    cases s with
    | error e => exact wp_interrupted ⟨hr.ghost.trans (.inr rfl), by simp, by simp⟩
    | complete =>
      refine Monitor.wp_mono (closeStream_spec (P := g' = g ∧ ∃ reasons,
        assembled route.provider (readSSE b).1 = some ("", reasons) ∧ reasons ≠ [] ∧
          ∀ f ∈ reasons, f = "length") ?_) ?_
      · intro hw hp
        obtain ⟨hg, reasons, ha, hall, hpend⟩ := hr.silent rfl hw
        refine ⟨hg, reasons, ha, ?_, hall⟩
        rcases hpend hp with hnone | hne
        · simp at hnone
        · exact hne
      · intro r g'' hclose
        refine ⟨hr.ghost.trans hclose.1, fun he => ?_, fun _ => ⟨b, hb, hr.whole rfl⟩⟩
        obtain ⟨hg'', hg', reasons, ha, hne, hall⟩ := hclose.2 he
        exact ⟨hg''.trans hg', b, reasons, hb, ha, hne, hall⟩

theorem stream_spec (k : Inference) (route : Route) (contentType : String) (body : Body) :
    (watch srv known).wp (Streamed k.srv.lib route contentType body g) (stream k route contentType body)
      g := by
  unfold stream
  split
  · simp only [Monitor.wp_bind_iff, wp_problem]
    exact ⟨.inr rfl, by simp, by simp⟩
  · rename_i b hb
    exact relay_spec k route b hb

end Switchboard.Proofs.Watch
