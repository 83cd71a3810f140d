import Switchboard.Proofs.Ledger
import Switchboard.Proofs.Shape

namespace Switchboard.Proofs.Judgement
open Text Gateway
open Effect (Monitor Prog)
open Shape (Tape tape tapeOf)
open Tally (follow heldBack)
open Watch (assembled)

theorem finish_ne_empty {s f : String} (h : finish s = .ok f) : f ≠ "" := by
  unfold finish at h
  split at h
  · cases h
    decide
  · split at h
    · cases h
      decide
    · split at h
      · cases h
        decide
      · cases h

theorem bedrockFinish_ne_empty {s f : String} (h : bedrockFinish s = .ok f) : f ≠ "" := by
  unfold bedrockFinish at h
  split at h
  · cases h
    decide
  · split at h
    · cases h
      decide
    · split at h
      · cases h
        decide
      · cases h

theorem normalizeGemini_done {w : Wire} (h : (normalizeGemini w).done = true) :
    (normalizeGemini w).n.finish ≠ "" := by
  revert h
  unfold normalizeGemini
  dsimp only
  split
  · simp
  · split
    · simp
    · unfold geminiCandidate
      split
      · simp [Reading.fail]
      · split
        · simp [Reading.fail]
        · split
          · simp
          · split
            · simp [Reading.fail]
            · rename_i f hf
              exact fun _ => finish_ne_empty hf
    · simp [Reading.fail]

theorem normalizeBedrockStream_done {b : Bytes} (h : (normalizeBedrockStream b).done = true) :
    (normalizeBedrockStream b).n.finish ≠ "" := by
  revert h
  unfold normalizeBedrockStream
  split
  · simp [Reading.fail]
  · dsimp only
    split
    · simp
    · split
      · simp [Reading.fail]
      · rename_i f hf
        exact fun _ => bedrockFinish_ne_empty hf

theorem anthropicFrame_done {n : Normalized} {w : Wire} (hn : n.finish = "")
    (h : (anthropicFrame n w).done = true) : (anthropicFrame n w).n.finish = "" := by
  revert h
  unfold anthropicFrame
  split
  · split
    · simp [Reading.fail]
    · simp
  · split
    · split
      · simp [Reading.fail]
      · simp
    · split
      · split
        · simp
        · split
          · simp [Reading.fail]
          · simp
      · split
        · exact fun _ => hn
        · split
          · simp
          · simp [Reading.fail]

/-- What the frame that ends a stream says about its finish: nothing with one provider,
everything with the others. -/
theorem normalize_done {provider : String} {b : Bytes} (hp : provider ≠ "openai")
    (h : (normalize provider b true).done = true) :
    (provider = "anthropic" ∧ (normalize provider b true).n.finish = "") ∨
      (provider ≠ "anthropic" ∧ (normalize provider b true).n.finish ≠ "") := by
  revert h
  unfold Gateway.normalize
  split
  · rename_i hbedrock
    intro h
    exact .inr ⟨by simp [hbedrock], normalizeBedrockStream_done h⟩
  · split
    · simp [Reading.fail]
    · split
      · simp [Reading.fail]
      · dsimp only
        rw [if_neg (by simp)]
        unfold normalizeWire
        rw [if_neg hp]
        split
        · rename_i hanthropic
          intro h
          exact .inl ⟨hanthropic, anthropicFrame_done rfl h⟩
        · rename_i hanthropic
          split
          · exact fun h => .inr ⟨hanthropic, normalizeGemini_done h⟩
          · simp

/-- With two providers the reason comes before the frame that ends the stream, so that
nothing is held back to its end. -/
theorem heldBack_early {provider : String} (hp : provider = "openai" ∨ provider = "anthropic")
    (bs : List Bytes) : heldBack provider bs = false := by
  induction bs with
  | nil => rfl
  | cons b bs ih =>
    unfold heldBack
    dsimp only
    split
    · rfl
    · split
      · rfl
      · split
        · rename_i hd
          rcases normalize_done hd.2 hd.1 with ⟨-, hf⟩ | ⟨hna, -⟩
          · simp [hf]
          · exact absurd hna (fun h => h (hp.resolve_left hd.2))
        · exact ih

/-- With the other providers a stream that was read to its end has sent something. -/
theorem onEvent_wrote (k : Inference) {route : Route} (st : StreamState) (b : Bytes)
    (ho : route.provider ≠ "openai") (ha : route.provider ≠ "anthropic") :
    (onEvent k route st b).Returns (fun r => r.2 = some .complete → r.1.wrote = true) := by
  unfold onEvent
  split
  · rw [if_pos (.inl ho)]
    exact fun h => by cases h
  · dsimp only
    split
    · exact fun h => by cases h
    · refine Prog.Returns.bind (Prog.returns_any _) (fun _ _ => ?_)
      split
      · exact fun h => by cases h
      · unfold emitFrame
        split
        · dsimp only
          split
          · exact fun h => by cases h
          · refine fun sent => ?_
            cases sent with
            | true => exact fun _ => rfl
            | false => exact fun h => by cases h
        · rename_i hempty
          simp only [not_or, not_not] at hempty
          intro h
          unfold frameEnd at h
          split at h
          · rename_i hd
            simp only [Bool.and_eq_true] at hd
            rcases normalize_done ho hd.1 with ⟨han, -⟩ | ⟨-, hf⟩
            · exact absurd han ha
            · exact absurd hempty.2 hf
          · cases h

theorem onEvents_wrote (k : Inference) {route : Route} (bs : List Bytes) (st : StreamState)
    (ho : route.provider ≠ "openai") (ha : route.provider ≠ "anthropic") :
    (onEvents k route st bs).Returns (fun r => r.2 = some .complete → r.1.wrote = true) := by
  induction bs generalizing st with
  | nil => exact fun h => by cases h
  | cons b bs ih =>
    refine Prog.Returns.bind (onEvent_wrote k st b ho ha) ?_
    intro r hr
    obtain ⟨st', stop⟩ := r
    cases stop with
    | some s => exact hr
    | none => exact ih st'

theorem closeStream_returns {st : StreamState} {Q : StreamResult × StreamEnd → Prop}
    (hempty : st.wrote = false → Q (st.out, .empty)) (hcomplete : Q (st.out, .complete))
    (hfailed : ∀ e, Q (st.out, .failed e)) : (closeStream st).Returns Q := by
  have hdone : (sendDone st).Returns Q := by
    intro sent
    cases sent with
    | true => exact hcomplete
    | false => exact hfailed _
  unfold closeStream
  split
  · exact hdone
  · split
    · rename_i hw
      exact hempty hw
    · intro sent
      cases sent with
      | true => exact hdone
      | false => exact hfailed _

/-- What is known of the events is known of the stream. -/
theorem relay_returns {k : Inference} {route : Route} {body : Body}
    {P : StreamState × Option StreamStop → Prop} {Q : StreamResult × StreamEnd → Prop}
    (h : (onEvents k route {} (readSSE body).1).Returns P)
    (hempty : ∀ st, P (st, some .complete) → st.wrote = false → Q (st.out, .empty))
    (hcomplete : ∀ st, P (st, some .complete) → Q (st.out, .complete))
    (hfailed : ∀ out e, Q (out, .failed e)) : (relay k route body).Returns Q := by
  unfold relay
  refine Prog.Returns.bind (Prog.returns_any _) (fun _ _ => Prog.Returns.bind (Prog.returns_any _)
    (fun _ _ => Prog.Returns.bind (Prog.returns_any _) (fun _ _ => Prog.Returns.bind h ?_)))
  intro r hr
  obtain ⟨st, stop⟩ := r
  cases stop with
  | none => exact fun _ => hfailed _ _
  | some s =>
    cases s with
    | error e => exact fun _ => hfailed _ _
    | complete =>
      exact closeStream_returns (hempty st hr) (hcomplete st hr) (hfailed st.out)

/-- With the other providers a stream is never said to be empty. -/
theorem stream_not_empty (k : Inference) {route : Route} (contentType : String) (body : Body)
    (ho : route.provider ≠ "openai") (ha : route.provider ≠ "anthropic") :
    (stream k route contentType body).Returns (fun r => r.2 ≠ .empty) := by
  unfold stream
  split
  · refine Prog.Returns.bind (Prog.returns_any _) (fun _ _ => ?_)
    exact fun h => by cases h
  · refine relay_returns (onEvents_wrote k _ {} ho ha) ?_ ?_ ?_
    · intro st hw hwrote
      rw [hw rfl] at hwrote
      cases hwrote
    · intro st _ h
      cases h
    · intro out e h
      cases h

/-- What a stream that says `a` leaves, from a state on: its text, which is none after the
finish, and a finish that is no length unless it says so. -/
structure Gives (st : StreamState) (a : String × List String) (out : StreamResult) : Prop where
  text : out.text = st.out.text ++ a.1
  late : st.finished = true → a.1 = ""
  finish : "length" ∉ a.2 → st.out.finish ≠ "length" → out.finish ≠ "length"

/-- One event, against what the stream says with it. -/
structure Carried (provider : String) (st : StreamState) (b : Bytes)
    (r : StreamState × Option StreamStop) : Prop where
  stop : r.2 = some .complete → ∀ bs, ∃ a, assembled provider (b :: bs) = some a ∧ Gives st a r.1.out
  next : r.2 = none → ∀ bs a out, assembled provider bs = some a → Gives r.1 a out →
    ∃ a', assembled provider (b :: bs) = some a' ∧ Gives st a' out

theorem Carried.error {provider : String} {st st' : StreamState} {b : Bytes} {e : StreamError} :
    Carried provider st b (st', some (.error e)) :=
  ⟨(fun h => by cases h), (fun h => by cases h)⟩

/-- A frame that was read and leaves `st'`, with its text and its finish taken over. -/
theorem Carried.frame {provider : String} {st st' : StreamState} {b : Bytes} {r : Reading}
    (hb : b ≠ ascii "[DONE]") (hr : normalize provider b true = r) (herr : r.err = none)
    (htext : st'.out.text = st.out.text ++ r.n.text) (hlate : st.finished = true → r.n.text = "")
    (hfin : st.finished = true → st'.finished = true)
    (hfinish : r.n.finish ≠ "length" → st.out.finish ≠ "length" → st'.out.finish ≠ "length") :
    Carried provider st b (st', frameEnd provider st' r.done) := by
  have hreason : "length" ∉ (if r.n.finish = "" then [] else [r.n.finish]) →
      r.n.finish ≠ "length" := by
    intro hnot hlength
    simp [hlength] at hnot
  by_cases hd : r.done = true ∧ provider ≠ "openai"
  · refine ⟨fun _ bs => ?_, fun hnone => ?_⟩
    · refine ⟨(r.n.text, if r.n.finish = "" then [] else [r.n.finish]), ?_, htext, hlate, ?_⟩
      · simp [assembled, hb, hr, herr, hd]
      · exact fun hnot => hfinish (hreason hnot)
    · unfold frameEnd at hnone
      rw [if_pos (by simpa using hd)] at hnone
      split at hnone
      · cases hnone
      · cases hnone
  · refine ⟨fun hstop => ?_, fun _ bs a out ha hout => ?_⟩
    · rw [Watch.frameEnd_none hd] at hstop
      cases hstop
    · refine ⟨(r.n.text ++ a.1, (if r.n.finish = "" then [] else [r.n.finish]) ++ a.2), ?_, ?_, ?_, ?_⟩
      · simp [assembled, hb, hr, herr, hd, ha]
      · rw [hout.text, htext, String.append_assoc]
      · intro hst
        rw [hlate hst, hout.late (hfin hst)]
        rfl
      · intro hnot hst
        rw [List.mem_append, not_or] at hnot
        exact hout.finish hnot.2 (hfinish (hreason hnot.1) hst)

/-- A frame that is held back says that the length was reached. -/
theorem Carried.held {provider : String} {st st' : StreamState} {b : Bytes} {r : Reading}
    (hb : b ≠ ascii "[DONE]") (hr : normalize provider b true = r) (herr : r.err = none)
    (ht : r.n.text = "") (hf : r.n.finish = "length") (htext : st'.out.text = st.out.text)
    (hfin : st'.finished = true) : Carried provider st b (st', none) := by
  refine ⟨(fun h => by cases h), fun _ bs a out ha hout => ?_⟩
  have hlate : a.1 = "" := hout.late hfin
  have hsame : out.text = st.out.text := by rw [hout.text, htext, hlate, String.append_empty]
  by_cases hd : r.done = true ∧ provider ≠ "openai"
  · refine ⟨("", ["length"]), ?_, by simpa using hsame, fun _ => rfl, ?_⟩
    · simp [assembled, hb, hr, herr, hd, ht, hf]
    · exact fun hnot => absurd (List.mem_singleton_self _) hnot
  · refine ⟨("", "length" :: a.2), ?_, by simpa using hsame, fun _ => rfl, ?_⟩
    · simp [assembled, hb, hr, herr, hd, ht, hf, ha, hlate]
    · exact fun hnot => absurd List.mem_cons_self hnot

theorem onEvent_carried (k : Inference) (route : Route) (st : StreamState) (b : Bytes) :
    (onEvent k route st b).Returns (Carried route.provider st b) := by
  unfold onEvent
  split
  · rename_i hdone
    split
    · exact .error
    · rename_i hok
      simp only [not_or, not_not] at hok
      refine ⟨fun _ bs => ⟨("", []), ?_, ?_, fun _ => rfl, fun _ h => h⟩, (fun h => by cases h)⟩
      · simp [assembled, hdone, hok.1]
      · simp
  · rename_i hb
    dsimp only
    split
    · exact .error
    · rename_i herr
      refine Prog.Returns.bind (Prog.returns_any _) (fun _ _ => ?_)
      split
      · exact .error
      · rename_i hlate
        simp only [not_and, not_not] at hlate
        unfold emitFrame
        split
        · dsimp only
          split
          · rename_i hheld
            obtain ⟨-, ht, hf⟩ := hheld
            exact .held hb rfl herr ht hf (Shape.noteFrame_text st _) (by simp [hf])
          · intro sent
            cases sent with
            | false => exact .error
            | true =>
              refine Carried.frame hb rfl herr ?_ hlate (fun h => by simp [h, StreamState.noteChunk]) ?_
              · exact congrArg (· ++ _) (Shape.noteFrame_text st _)
              · intro hn hst
                show (if (normalize route.provider b true).n.finish ≠ "" then
                  (normalize route.provider b true).n.finish
                  else (st.noteFrame (normalize route.provider b true).n).out.finish) ≠ "length"
                rw [Shape.noteFrame_finish]
                split
                · exact hn
                · exact hst
        · rename_i hempty
          simp only [not_or, not_not] at hempty
          refine Carried.frame hb rfl herr ?_ hlate (fun h => by simp [h]) ?_
          · rw [hempty.1, String.append_empty]
            exact Shape.noteFrame_text st _
          · intro _ hst
            exact fun h => hst ((Shape.noteFrame_finish st _).symm.trans h)

theorem onEvents_gives (k : Inference) (route : Route) (bs : List Bytes) (st : StreamState) :
    (onEvents k route st bs).Returns (fun r => r.2 = some .complete →
      ∃ a, assembled route.provider bs = some a ∧ Gives st a r.1.out) := by
  induction bs generalizing st with
  | nil => exact fun h => by cases h
  | cons b bs ih =>
    refine Prog.Returns.bind (onEvent_carried k route st b) ?_
    intro r hr
    obtain ⟨st', stop⟩ := r
    cases stop with
    | some s => exact fun h => hr.stop h bs
    | none =>
      refine (ih st').mono ?_
      intro r' hr' hstop
      obtain ⟨a, ha, hout⟩ := hr' hstop
      exact hr.next rfl bs a r'.1.out ha hout

/-- A stream that is complete has left its text, and a finish that is no length unless it
says so. -/
theorem stream_gives (k : Inference) {route : Route} {contentType : String} {body b : Body}
    (hb : streamBody k.srv.lib route contentType body = some b) :
    (stream k route contentType body).Returns (fun r => r.2 = .complete →
      ∃ a, assembled route.provider (readSSE b).1 = some a ∧ r.1.text = a.1 ∧
        ("length" ∉ a.2 → r.1.finish ≠ "length")) := by
  unfold stream
  rw [hb]
  refine relay_returns (onEvents_gives k route (readSSE b).1 {}) ?_ ?_ ?_
  · intro st _ _ h
    cases h
  · intro st hst _
    obtain ⟨a, ha, hout⟩ := hst rfl
    exact ⟨a, ha, by simpa using hout.text, fun hnot => hout.finish hnot (by decide)⟩
  · intro out e h
    cases h

def passes : Flow → Bool
  | .next _ => true
  | _ => false

/-- What the budget table is to be told about an answer. -/
def told (k : Inference) (route : Route) (text finish : String) : List (BudgetKey × Int × Bool) :=
  if text ≠ "" then [(budgetKey route, k.chat.maxTokens, true)]
  else if finish = "length" then [(budgetKey route, k.chat.maxTokens, false)]
  else []

/-- An answer taken as its text and finish say: it is passed over for the next route
exactly if it is empty and was cut short, and the budget table is told. -/
structure Judged (k : Inference) (route : Route) (text finish : String) (flow : Flow)
    (log : List (Effect.Event Op Ans)) : Prop where
  passes : passes flow = true ↔ text = "" ∧ finish = "length"
  observed : (tapeOf log).observed = told k route text finish

def Tape.observe (g : Tape) (xs : List (BudgetKey × Int × Bool)) : Tape :=
  { g with observed := g.observed ++ xs }

section
variable {g : Tape}

@[simp] theorem wp_settle {p : String} {s : Settlement} {Q : Unit → Tape → Prop} :
    tape.wp Q (settle p s) g ↔ Q () g :=
  ⟨fun h => h.2 () trivial, fun h => ⟨trivial, fun _ _ => h⟩⟩

theorem wp_settleUnknown {k : Inference} {Q : Bool → Tape → Prop} (h : ∀ b, Q b g) :
    tape.wp Q (settleUnknown k) g := by
  unfold settleUnknown
  split
  · exact h false
  · exact ⟨trivial, fun _ _ => ⟨trivial, fun _ _ => h true⟩⟩

theorem wp_settleDone {k : Inference} {e : IdemEntry} {Q : Bool → Tape → Prop} (h : ∀ b, Q b g) :
    tape.wp Q (settleDone k e) g := by
  unfold settleDone
  split
  · exact h false
  · exact ⟨trivial, fun _ _ => ⟨trivial, fun _ _ => h true⟩⟩

theorem wp_observeBudget {k : Inference} {route : Route} {finish text : String}
    {Q : Unit → Tape → Prop} (h : Q () (Tape.observe g (told k route text finish))) :
    tape.wp Q (observeBudget k route finish text) g := by
  unfold observeBudget BudgetTable.outcome
  unfold told at h
  by_cases ht : text = ""
  · by_cases hf : finish = "length"
    · rw [if_neg (by simpa using ht), if_pos hf]
      rw [if_neg (by simpa using ht), if_pos hf] at h
      exact ⟨trivial, fun _ _ => h⟩
    · rw [if_neg (by simpa using ht), if_neg hf]
      rw [if_neg (by simpa using ht), if_neg hf] at h
      simpa [Tape.observe] using h
  · rw [if_pos ht]
    rw [if_pos ht] at h
    exact ⟨trivial, fun _ _ => h⟩

theorem wp_emptyAnswer {k : Inference} {route : Route} {st : Loop} {n : Int} {Q : Flow → Tape → Prop}
    (h : ∀ st, Q (.next st) (Tape.observe g (told k route "" "length"))) :
    tape.wp Q (emptyAnswer k route st n) g :=
  ⟨trivial, fun _ _ => ⟨trivial, fun _ _ => h _⟩⟩

end

/-- What is done about a stream, by how it ended. -/
def Taken (k : Inference) (route : Route) (out : StreamResult) (g : Tape) : StreamEnd → Flow → Tape → Prop
  | .empty, flow, g' => passes flow = true ∧ g' = Tape.observe g (told k route "" "length")
  | .failed _, flow, g' => passes flow = false ∧ g' = g
  | .complete, flow, g' => passes flow = false ∧ g' = Tape.observe g (told k route out.text out.finish)

theorem acceptStream_run {k : Inference} {route : Route} {st : Loop} {contentType : String}
    {body : Body} {log : List (Effect.Event Op Ans)} {flow : Flow}
    (h : (acceptStream k route st contentType body).Run log (.ret flow)) :
    ∃ out stop xs ys, log = xs ++ ys ∧ (stream k route contentType body).Run xs (.ret (out, stop)) ∧
      Taken k route out (tapeOf xs) stop flow (tapeOf log) := by
  unfold acceptStream at h
  obtain ⟨⟨out, stop⟩, xs, ys, rfl, hxs, hys⟩ := Prog.Run.of_bind h
  refine ⟨out, stop, xs, ys, rfl, hxs, ?_⟩
  have htape : tapeOf (xs ++ ys) = tape.after (tapeOf xs) ys := Monitor.after_append _ _ _ _
  rw [htape]
  refine Monitor.wp_run (G := tape) (Q := Taken k route out (tapeOf xs) stop) hys ?_
    (Monitor.relied_of_may (fun _ _ _ => trivial) _ ys)
  cases stop with
  | empty =>
    simp only [Monitor.wp_bind_iff, wp_settle]
    exact wp_emptyAnswer (fun _ => ⟨rfl, rfl⟩)
  | failed e =>
    simp only [Monitor.wp_bind_iff, wp_settle]
    exact wp_settleUnknown (fun _ => ⟨rfl, rfl⟩)
  | complete =>
    simp only [Monitor.wp_bind_iff, wp_settle]
    refine wp_observeBudget ?_
    simp only [Shape.wp_countIf]
    exact wp_settleDone (fun _ => ⟨rfl, rfl⟩)

/-- A complete response is taken as its text and finish say. -/
theorem acceptWhole_judged {k : Inference} {route : Route} {st : Loop} {body : Body} {data : Bytes}
    {log : List (Effect.Event Op Ans)} {flow : Flow} (hd : wholeBody body = some data)
    (hr : (normalize route.provider data false).err = none)
    (h : (acceptWhole k route st body).Run log (.ret flow)) :
    Judged k route (normalize route.provider data false).n.text
      (normalize route.provider data false).n.finish flow log := by
  have hspec : tape.wp (fun flow g => (passes flow = true ↔
        (normalize route.provider data false).n.text = "" ∧
          (normalize route.provider data false).n.finish = "length") ∧
      g.observed = told k route (normalize route.provider data false).n.text
        (normalize route.provider data false).n.finish) (acceptWhole k route st body) {} := by
    unfold acceptWhole
    rw [hd]
    simp only [Monitor.wp_bind_iff, Shape.wp_countIf, wp_settle, hr, Option.isSome_none, if_false,
      Bool.false_eq_true]
    split
    · rename_i hempty
      refine wp_emptyAnswer (fun _ => ⟨?_, ?_⟩)
      · simp [passes, hempty]
      · rw [hempty.1, hempty.2]
        rfl
    · rename_i hempty
      unfold answer
      simp only [Monitor.wp_bind_iff]
      refine wp_observeBudget ?_
      simp only [Shape.wp_countIf]
      refine wp_settleDone (fun _ => ?_)
      simp only [Shape.wp_setHeader, Shape.wp_write]
      refine fun _ => ⟨?_, rfl⟩
      simp only [passes, Bool.false_eq_true, false_iff]
      exact fun hn => hempty ⟨hn.2, hn.1⟩
  obtain ⟨hpasses, hobserved⟩ := Monitor.wp_run h hspec
    (Monitor.relied_of_may (G := tape) (fun _ _ _ => trivial) _ log)
  exact ⟨hpasses, hobserved⟩

/-- A stream with one finish: how it ends. -/
structure Ends (provider : String) (bs : List Bytes) (text finish : String)
    (r : StreamResult × StreamEnd) (g : Tape) : Prop where
  empty : r.2 = .empty ↔ text = "" ∧ finish = "length" ∧ (provider = "openai" ∨ provider = "anthropic")
  complete : r.2 = .complete → r.1.text = text ∧ (finish ≠ "length" → r.1.finish ≠ "length")
  whole : text ≠ "" → (r.2 = .complete ↔ (follow provider false {} bs).1 = true ∧ g.lost = false)
  observed : g.observed = []

/-- Two ways to keep track of whether something was lost on the way to the client. -/
theorem account_lost (srv : Server) (A : Tally.Assume) (log : List (Effect.Event Op Ans))
    {g : Tally.Sheet} {g' : Tape} (h : g.lost = g'.lost) :
    ((Tally.account srv A).after g log).lost = (tape.after g' log).lost := by
  induction log generalizing g g' with
  | nil => exact h
  | cons e log ih =>
    rw [Monitor.after_cons, Monitor.after_cons]
    apply ih
    obtain ⟨o, x⟩ := e
    cases o with
    | write b => simp [Tally.account, tape, Tally.Sheet.speak, Tape.push, h]
    | writeHeader status => simp [Tally.account, tape, Tally.Sheet.speak, h]
    | tell t => cases t <;> exact h
    | wouldAllow p => cases x <;> exact h
    | allow p => cases x <;> exact h
    | ask a => cases a <;> exact h
    | _ => exact h

theorem stream_run_ends {k : Inference} {route : Route} {contentType : String} {body b : Body}
    {text finish : String} {log : List (Effect.Event Op Ans)} {r : StreamResult × StreamEnd}
    (hb : streamBody k.srv.lib route contentType body = some b)
    (ha : assembled route.provider (readSSE b).1 = some (text, [finish]))
    (hrun : (stream k route contentType body).Run log (.ret r)) :
    Ends route.provider (readSSE b).1 text finish r (tapeOf log) := by
  have hended : Shape.Ended k route [] r (tapeOf log) := by
    have hspec : tape.wp (Shape.Ended k route []) (stream k route contentType body) {} := by
      unfold stream
      rw [hb]
      exact Shape.relay_spec k route b
    exact Monitor.wp_run hrun hspec (Monitor.relied_of_may (G := tape) (fun _ _ _ => trivial) _ log)
  have hstreamed : Tally.Streamed k.srv.lib route contentType body {} r
      ((Tally.account k.srv {}).after {} log) := by
    exact Monitor.wp_run hrun (Tally.stream_spec k route contentType body rfl)
      (Monitor.relied_of_may (Ledger.account_may k.srv) _ _)
  have hlost : ((Tally.account k.srv {}).after {} log).lost = (tapeOf log).lost :=
    account_lost k.srv {} log rfl
  have hempty : r.2 = .empty → text = "" ∧ finish = "length" := by
    intro he
    obtain ⟨b', reasons, hb', ha', -, hall⟩ :=
      (Tally.stream_returns k route contentType body).of_run hrun he
    obtain rfl : b = b' := Option.some.inj (hb.symm.trans hb')
    obtain ⟨rfl, rfl⟩ := Prod.mk.inj (Option.some.inj (ha.symm.trans ha'))
    exact ⟨rfl, hall finish (List.mem_singleton_self _)⟩
  refine ⟨⟨fun he => ?_, fun he => ?_⟩, fun hc => ?_, fun ht => ⟨fun hc => ?_, fun hv => ?_⟩,
    hended.observed⟩
  · obtain ⟨ht, hf⟩ := hempty he
    refine ⟨ht, hf, ?_⟩
    by_contra hnot
    rw [not_or] at hnot
    exact (stream_not_empty k contentType body hnot.1 hnot.2).of_run hrun he
  · obtain ⟨rfl, rfl, hp⟩ := he
    exact (Tally.stream_empty k hb ha (by simp) (by simp) (heldBack_early hp _)).of_run hrun
  · obtain ⟨a, ha', htext, hfinish⟩ := (stream_gives k hb).of_run hrun hc
    obtain rfl := Option.some.inj (ha.symm.trans ha')
    refine ⟨htext, fun hne => hfinish ?_⟩
    exact fun hmem => hne (List.mem_singleton.mp hmem).symm
  · obtain ⟨b', hb', hgood⟩ := hstreamed.good (by rw [hc]; rfl)
    obtain rfl : b = b' := Option.some.inj (hb.symm.trans hb')
    refine ⟨hgood, ?_⟩
    cases hl : (tapeOf log).lost with
    | false => rfl
    | true =>
      obtain ⟨e, he⟩ := hended.lost hl
      rw [hc] at he
      cases he
  · cases hstop : r.2 with
    | complete => rfl
    | empty => exact absurd (hempty hstop).1 ht
    | failed e =>
      have hheld : heldBack route.provider (readSSE b).1 = false := by
        cases hh : heldBack route.provider (readSSE b).1 with
        | false => rfl
        | true =>
          obtain ⟨reasons, ha', -, -⟩ := Tally.assembled_of_heldBack hh
          exact absurd (congrArg Prod.fst (Option.some.inj (ha.symm.trans ha'))) ht
      have hbad := hstreamed.bad (by rw [hstop]; rfl) (hlost.trans hv.2) b hb hheld
      rw [hv.1] at hbad
      cases hbad

theorem told_empty {k : Inference} {route : Route} {finish : String} (h : finish ≠ "length") :
    told k route "" finish = [] := by
  unfold told
  rw [if_neg (fun h => h rfl), if_neg h]

theorem told_text {k : Inference} {route : Route} {text : String} (h : text ≠ "") (finish : String) :
    told k route text finish = [(budgetKey route, k.chat.maxTokens, true)] := by
  unfold told
  rw [if_pos h]

/-- A complete response is always taken as its text and finish say. A complete stream with
one finish is taken so exactly if, when it is empty and was cut short, its provider states
the finish before the frame that ends the stream; and, when it has text, none comes after
the finish and all of it reaches the client. -/
theorem stream_judged_like_whole_iff (k : Inference) (route : Route) (st : Loop) (contentType : String)
    (body b : Body) (text finish : String)
    (hb : streamBody k.srv.lib route contentType body = some b)
    (ha : assembled route.provider (readSSE b).1 = some (text, [finish]))
    (log : List (Effect.Event Op Ans)) (flow : Flow)
    (hrun : (acceptStream k route st contentType body).Run log (.ret flow)) :
    (∀ k' st' body' data log' flow', wholeBody body' = some data →
      (normalize route.provider data false).err = none →
      (normalize route.provider data false).n.text = text →
      (normalize route.provider data false).n.finish = finish →
      (acceptWhole k' route st' body').Run log' (.ret flow') →
      Judged k' route text finish flow' log') ∧
    (Judged k route text finish flow log ↔
      (text = "" → finish = "length" → route.provider = "openai" ∨ route.provider = "anthropic") ∧
      (text ≠ "" → (follow route.provider false {} (readSSE b).1).1 = true ∧
        (tapeOf log).lost = false)) := by
  refine ⟨fun k' st' body' data log' flow' hd hr ht hf h => ?_, ?_⟩
  · subst ht hf
    exact acceptWhole_judged hd hr h
  obtain ⟨out, stop, xs, ys, rfl, hxs, htaken⟩ := acceptStream_run hrun
  have hends := stream_run_ends hb ha hxs
  by_cases ht : text = ""
  · subst ht
    by_cases hf : finish = "length"
    · subst hf
      by_cases hp : route.provider = "openai" ∨ route.provider = "anthropic"
      · have hstop : stop = .empty := hends.empty.mpr ⟨rfl, rfl, hp⟩
        subst hstop
        obtain ⟨hpasses, htape⟩ := htaken
        refine ⟨fun _ => ⟨fun _ _ => hp, fun h => absurd rfl h⟩, fun _ => ⟨?_, ?_⟩⟩
        · exact ⟨fun _ => ⟨rfl, rfl⟩, fun _ => hpasses⟩
        · rw [htape]
          simp [Tape.observe, hends.observed]
      · have hstop : stop ≠ .empty := fun h => hp (hends.empty.mp h).2.2
        have hpasses : passes flow = false := by
          cases stop with
          | empty => exact absurd rfl hstop
          | failed e => exact htaken.1
          | complete => exact htaken.1
        refine ⟨fun h => ?_, fun h => absurd (h.1 rfl rfl) hp⟩
        rw [h.passes.mpr ⟨rfl, rfl⟩] at hpasses
        cases hpasses
    · have hstop : stop ≠ .empty := fun h => hf (hends.empty.mp h).2.1
      refine ⟨fun _ => ⟨fun _ h => absurd h hf, fun h => absurd rfl h⟩, fun _ => ?_⟩
      cases stop with
      | empty => exact absurd rfl hstop
      | failed e =>
        obtain ⟨hpasses, htape⟩ := htaken
        refine ⟨by simp [hpasses, hf], ?_⟩
        rw [htape, told_empty hf]
        exact hends.observed
      | complete =>
        obtain ⟨hpasses, htape⟩ := htaken
        obtain ⟨htext, hfinish⟩ := hends.complete rfl
        refine ⟨by simp [hpasses, hf], ?_⟩
        rw [htape, htext, told_empty hf, told_empty (hfinish hf)]
        simpa [Tape.observe] using hends.observed
  · have hlost : (tapeOf (xs ++ ys)).lost = (tapeOf xs).lost := by
      cases stop with
      | empty => exact absurd (hends.empty.mp rfl).1 ht
      | failed e => rw [htaken.2]
      | complete =>
        rw [htaken.2]
        rfl
    rw [hlost]
    have hwhole := hends.whole ht
    refine ⟨fun h => ⟨fun h' => absurd h' ht, fun _ => hwhole.mp ?_⟩, fun h => ?_⟩
    · cases stop with
      | empty => exact absurd (hends.empty.mp rfl).1 ht
      | complete => rfl
      | failed e =>
        have hobserved := h.observed
        rw [htaken.2, hends.observed, told_text ht] at hobserved
        cases hobserved
    · obtain rfl : stop = .complete := hwhole.mpr (h.2 ht)
      obtain ⟨hpasses, htape⟩ := htaken
      obtain ⟨htext, -⟩ := hends.complete rfl
      refine ⟨by simp [hpasses, ht], ?_⟩
      rw [htape, htext, told_text ht, told_text ht]
      simp [Tape.observe, hends.observed]

def untried : Loop := { event := {} }

def greeted : List (Effect.Event Op Ans) × Flow :=
  (acceptStream Shape.plainInference ⟨"openai", "gpt"⟩ untried "text/event-stream" Shape.greeting).answered
    Shape.agreeable

theorem greeted_run :
    (acceptStream Shape.plainInference ⟨"openai", "gpt"⟩ untried "text/event-stream" Shape.greeting).Run
      greeted.1 (.ret greeted.2) :=
  Prog.run_answered Shape.agreeable
    (acceptStream Shape.plainInference ⟨"openai", "gpt"⟩ untried "text/event-stream" Shape.greeting)

theorem stream_judged_like_whole_iff_greeting :
    assembled "openai" (readSSE Shape.greeting).1 = some ("hi", ["stop"]) ∧
      Judged Shape.plainInference ⟨"openai", "gpt"⟩ "hi" "stop" greeted.2 greeted.1 := by
  have ha : assembled "openai" (readSSE Shape.greeting).1 = some ("hi", ["stop"]) := by
    decide +kernel
  have hgood : (follow "openai" false {} (readSSE Shape.greeting).1).1 = true ∧
      (tapeOf greeted.1).lost = false := by
    decide +kernel
  have hiff := (stream_judged_like_whole_iff Shape.plainInference ⟨"openai", "gpt"⟩ untried
    "text/event-stream" Shape.greeting Shape.greeting "hi" "stop" (Shape.streamBody_sse _ _ _) ha
    greeted.1 greeted.2 greeted_run).2
  exact ⟨ha, hiff.mpr ⟨fun h => absurd h (by decide), fun _ => hgood⟩⟩

/-- A response, and a stream of one frame, that says only that the length was reached. -/
def muteResponse : Bytes := ascii "\x7b\"candidates\":[\x7b\"finishReason\":\"MAX_TOKENS\"\x7d]\x7d"

def muteStream : Body := ⟨ascii "data: " ++ muteResponse ++ ascii "\n\n", false⟩

def muteWhole : List (Effect.Event Op Ans) × Flow :=
  (acceptWhole Shape.plainInference ⟨"gemini", "flash"⟩ untried ⟨muteResponse, false⟩).answered Shape.agreeable

def muted : List (Effect.Event Op Ans) × Flow :=
  (acceptStream Shape.plainInference ⟨"gemini", "flash"⟩ untried "text/event-stream" muteStream).answered
    Shape.agreeable

/-- The frame that ends such a stream is held back with its end: the stream counts as
broken, and the budget table is told nothing. -/
theorem gemini_cut_short_stream_is_broken :
    assembled "gemini" (readSSE muteStream).1 = some ("", ["length"]) ∧
      (passes muteWhole.2 = true ∧
        (tapeOf muteWhole.1).observed = [(⟨"gemini", "flash"⟩, 16, false)]) ∧
      (passes muted.2 = false ∧ (tapeOf muted.1).observed = [] ∧
        (tapeOf muted.1).sent = [Shape.errorFrame Shape.plainInference]) := by
  decide +kernel

end Switchboard.Proofs.Judgement
