import Switchboard.Proofs.Airing
import Switchboard.Proofs.Requests

namespace Switchboard.Proofs.Frame
open Text Gateway Outline
open Effect (Monitor Prog)

/-- What any part of a request may do. The rest is done in one place each: asking a provider,
the retry bucket or the prompt cache, giving up on empty answers, and closing the books. -/
@[simp] def Mild : Op → Prop
  | .send _ => False
  | .ask .retryAllow => False
  | .ask (.worthCaching _) => False
  | .tell (.count .emptyCompletionFailed _) => False
  | .tell (.count .errors _) => False
  | .tell (.observeRoute _ _ _ _ _) => False
  | .tell (.emit _) => False
  | .tell (.capture _) => False
  | _ => True

def framing : List String := ["Content-Type", "Cache-Control", "X-Accel-Buffering"]

/-- What a stream is relayed with, and a problem told. -/
@[simp] def Framed : Op → Prop
  | .write _ => True
  | .writeHeader _ => True
  | .tell (.count .usageMismatch _) => True
  | .setHeader name _ => name ∈ framing
  | .delHeader name => name ∈ framing
  | _ => False

section
variable {k : Inference} {route : Route} {α β : Type}

/-- Only such operations, and `Q` holds of the result. -/
abbrev Gentle (Q : β → Prop) (p : M β) : Prop := p.Does Mild Q

abbrev Mostly (p : M β) : Prop := Gentle (fun _ => True) p

abbrev Framing (p : M β) : Prop := p.Does Framed (fun _ => True)

theorem mild_of_framed (o : Op) (h : Framed o) : Mild o := by
  cases o with
  | tell o =>
    cases o with
    | count m n => cases m <;> trivial
    | _ => cases h
  | ask o => cases h
  | send u => cases h
  | _ => trivial

theorem mild_of_clerical (o : Op) (h : Clerical o) : Mild o := by
  cases o with
  | tell o =>
    cases o with
    | count m n => cases m <;> trivial
    | releaseSlot => trivial
    | _ => cases h
  | ask o => cases o <;> trivial
  | send u => cases h
  | _ => trivial

theorem framed_problem (status : Int) (msg : String) : Framing (problem status msg) := by
  unfold problem
  refine Prog.does_call (by simp [framing]) (fun _ => Prog.does_call (by simp [framing]) (fun _ => ?_))
  refine Prog.does_call (by simp [framing]) (fun _ => Prog.does_call trivial (fun _ => ?_))
  exact Prog.does_call trivial (fun _ => Prog.does_ret trivial)

theorem gentle_problem (status : Int) (msg : String) : Mostly (problem status msg) :=
  (framed_problem status msg).relax mild_of_framed

theorem gentle_fail {event : Event} {settled : Bool} {status : Int} {msg : String} {Q : Ended → Prop}
    (h : Q { event := { event with status := status }, settled := settled }) :
    Gentle Q (fail event settled status msg) :=
  Prog.does_seq (gentle_problem status msg) (fun _ => Prog.does_ret h)

/-- What the outcome of a key is recorded with. -/
@[simp] def Recording : Op → Prop
  | .now => True
  | .finishKey _ _ => True
  | .tell (.budgetObserve _ _ _) => True
  | _ => False

abbrev Records (p : M β) : Prop := p.Does Recording (fun _ => True)

theorem mild_of_recording (o : Op) (h : Recording o) : Mild o := by
  cases o with
  | tell o => cases o <;> trivial
  | ask o => cases h
  | send u => cases h
  | _ => trivial

theorem records_settleUnknown : Records (settleUnknown k) := by
  unfold settleUnknown
  split
  · exact Prog.does_ret trivial
  · refine Prog.does_call trivial (fun t => ?_)
    exact Prog.does_call trivial (fun _ => Prog.does_ret trivial)

theorem records_settleDone {e : IdemEntry} : Records (settleDone k e) := by
  unfold settleDone
  split
  · exact Prog.does_ret trivial
  · refine Prog.does_call trivial (fun t => ?_)
    exact Prog.does_call trivial (fun _ => Prog.does_ret trivial)

theorem records_observeBudget {finish text : String} :
    Records (observeBudget k route finish text) := by
  unfold observeBudget
  split
  · exact Prog.does_ret trivial
  · exact Prog.does_op trivial

theorem gentle_settleUnknown : Mostly (settleUnknown k) :=
  records_settleUnknown.relax mild_of_recording

theorem gentle_settleDone {e : IdemEntry} : Mostly (settleDone k e) :=
  records_settleDone.relax mild_of_recording

theorem gentle_observeBudget {finish text : String} :
    Mostly (observeBudget k route finish text) :=
  records_observeBudget.relax mild_of_recording

theorem framed_emitFrame {s : StreamState} {n : Normalized} {done : Bool} :
    Framing (emitFrame k route s n done) := by
  unfold emitFrame
  split
  · dsimp only
    split
    · exact Prog.does_ret trivial
    · refine Prog.does_call trivial (fun sent => ?_)
      split <;> exact Prog.does_ret trivial
  · exact Prog.does_ret trivial

theorem framed_onEvent {s : StreamState} {b : Bytes} : Framing (onEvent k route s b) := by
  unfold onEvent
  split
  · split <;> exact Prog.does_ret trivial
  · dsimp only
    split
    · exact Prog.does_ret trivial
    · refine Prog.does_seq (does_tellIf trivial) (fun _ => ?_)
      split
      · exact Prog.does_ret trivial
      · exact framed_emitFrame

theorem framed_onEvents {events : List Bytes} {s : StreamState} :
    Framing (onEvents k route s events) := by
  induction events generalizing s with
  | nil => exact Prog.does_ret trivial
  | cons b events ih =>
    apply Prog.does_seq framed_onEvent
    intro out
    obtain ⟨s, stop⟩ := out
    cases stop with
    | some stop => exact Prog.does_ret trivial
    | none => exact ih

theorem framed_sendDone {s : StreamState} : Framing (sendDone s) := by
  refine Prog.does_call trivial (fun sent => ?_)
  split <;> exact Prog.does_ret trivial

theorem framed_closeStream {s : StreamState} : Framing (closeStream s) := by
  unfold closeStream
  split
  · exact framed_sendDone
  · split
    · exact Prog.does_ret trivial
    · refine Prog.does_call trivial (fun sent => ?_)
      split
      · exact framed_sendDone
      · exact Prog.does_ret trivial

theorem framed_interrupted {s : StreamState} {e : StreamError} : Framing (interrupted k s e) :=
  Prog.does_call trivial (fun _ => Prog.does_ret trivial)

theorem framed_stream {contentType : String} {body : Body} :
    Framing (stream k route contentType body) := by
  unfold stream
  split
  · exact Prog.does_seq (framed_problem _ _) (fun _ => Prog.does_ret trivial)
  · unfold relay
    refine Prog.does_call (by simp [framing]) (fun _ => ?_)
    refine Prog.does_call (by simp [framing]) (fun _ => ?_)
    refine Prog.does_call (by simp [framing]) (fun _ => ?_)
    apply Prog.does_seq framed_onEvents
    intro out
    obtain ⟨s, _ | _ | e⟩ := out
    · exact framed_interrupted
    · exact framed_closeStream
    · exact framed_interrupted

theorem gentle_stream {contentType : String} {body : Body} :
    Mostly (stream k route contentType body) :=
  framed_stream.relax mild_of_framed

theorem gentle_upstream {sent : Chat} {pc : ProviderConfig} :
    Gentle (fun o => ∀ u, o = some u → u.route = route ∧ u.sent = sent) (upstream k.srv sent route pc) :=
  does_upstream (fun _ => trivial)

theorem gentle_dropTemperature :
    Gentle (fun sent => ∃ t, sent = { k.chat with temperature := t }) (dropTemperature k route) :=
  does_dropTemperature (fun _ => trivial) trivial

/-- The exchange was answered by a complete answer without text. -/
def Emptied (lib : Lib) : Upstream × Outcome → Prop
  | (u, .response status _ contentType body) =>
    status = 200 ∧ Watch.EmptyAnswer lib u contentType body
  | (_, .failed) => False

/-- How a turn goes on once its provider has answered. The loop moves on after an empty
answer, which it remembers, and after a refusal. -/
inductive Goes (empty : Prop) (n : Int) (es : List EmptyRoute) : FlowOf α → Prop
  | empty (st : Loop) (h : empty) (attempts : st.event.attempts = n) (noted : st.empties ≠ []) :
      Goes empty n es (.next st)
  | refused (st : Loop) (h : ¬ empty) (attempts : st.event.attempts = n)
      (same : st.empties = es) : Goes empty n es (.next st)
  | done (e : Ended) (attempts : e.event.attempts = n) (status : e.event.status ≠ 503) :
      Goes empty n es (.done e)

variable {st : Loop} {empty : Prop} {n : Int} {es : List EmptyRoute}

theorem goes_done {e : Ended} (hn : e.event.attempts = n) (hs : e.event.status = 200) :
    Gentle (Goes empty n es) (pure (.done e) : M (FlowOf α)) := by
  apply Prog.does_ret
  apply Goes.done e hn
  rw [hs]
  decide

theorem goes_fail {event : Event} {settled : Bool} {status : Int} {msg : String}
    (hn : event.attempts = n) (hs : status ≠ 503) :
    Gentle (Goes empty n es) (FlowOf.done <$> fail event settled status msg : M (FlowOf α)) := by
  rw [Prog.map_def, fail, Prog.bind_assoc]
  exact Prog.does_seq (gentle_problem status msg) (fun _ => Prog.does_ret (.done _ hn hs))

theorem goes_emptyAnswer {reasoning : Int} (h : empty) (hn : st.event.attempts = n) :
    Gentle (Goes empty n es) (emptyAnswer k route st reasoning : M (FlowOf α)) := by
  refine Prog.does_call trivial (fun _ => Prog.does_call trivial (fun _ => ?_))
  exact Prog.does_ret (.empty _ h hn (by simp))

theorem goes_acceptStream {u : Upstream} {contentType header : String} {body : Body}
    (hr : u.route = route) (hs : u.sent.stream = true) (hn : st.event.attempts = n) :
    Gentle (Goes (Emptied k.srv.lib (u, .response 200 header contentType body)) n es)
      (acceptStream k route st contentType body : M (FlowOf α)) := by
  refine Prog.does_bind (gentle_stream.returns (Tally.stream_returns k route contentType body)) ?_
  intro out hout
  obtain ⟨out, stop⟩ := out
  cases stop with
  | empty =>
    refine Prog.does_call trivial (fun _ => goes_emptyAnswer ⟨rfl, ?_⟩ hn)
    simp only [Watch.EmptyAnswer, hs, hr, if_true]
    exact hout.2 rfl
  | failed e =>
    refine Prog.does_call trivial (fun _ => ?_)
    apply Prog.does_seq gentle_settleUnknown
    intro settled
    exact goes_done hn rfl
  | complete =>
    refine Prog.does_call trivial (fun _ => ?_)
    apply Prog.does_seq gentle_observeBudget
    intro _
    refine Prog.does_seq (does_tellIf trivial) (fun _ => ?_)
    apply Prog.does_seq gentle_settleDone
    intro settled
    exact goes_done hn rfl

theorem goes_answer {m : Normalized} (hn : st.event.attempts = n) :
    Gentle (Goes empty n es) (answer k route st m : M (FlowOf α)) := by
  apply Prog.does_seq gentle_observeBudget
  intro _
  refine Prog.does_seq (does_tellIf trivial) (fun _ => ?_)
  apply Prog.does_seq gentle_settleDone
  intro settled
  refine Prog.does_call trivial (fun _ => Prog.does_call trivial (fun _ => ?_))
  exact goes_done hn rfl

theorem goes_acceptWhole {u : Upstream} {contentType header : String} {body : Body}
    (hr : u.route = route) (hs : u.sent.stream = false) (hn : st.event.attempts = n) :
    Gentle (Goes (Emptied k.srv.lib (u, .response 200 header contentType body)) n es)
      (acceptWhole k route st body : M (FlowOf α)) := by
  unfold acceptWhole
  split
  · refine Prog.does_call trivial (fun _ => ?_)
    apply Prog.does_seq gentle_settleUnknown
    intro settled
    exact goes_fail hn (by decide)
  · rename_i data hdata
    refine Prog.does_seq (does_tellIf trivial) (fun _ => Prog.does_call trivial (fun _ => ?_))
    split
    · apply Prog.does_seq gentle_settleUnknown
      intro settled
      exact goes_fail hn (by decide)
    · rename_i herr
      split
      · rename_i hempty
        refine goes_emptyAnswer ⟨rfl, ?_⟩ hn
        simp only [Watch.EmptyAnswer, hs, hr]
        exact ⟨data, hdata, by simpa using herr, hempty⟩
      · exact goes_answer hn

theorem goes_accepted {u : Upstream} {contentType header : String} {body : Body}
    (hr : u.route = route) (hs : u.sent.stream = k.chat.stream) (hn : st.event.attempts = n) :
    Gentle (Goes (Emptied k.srv.lib (u, .response 200 header contentType body)) n es)
      (accepted k route st contentType body : M (FlowOf α)) := by
  refine Prog.does_call trivial (fun _ => ?_)
  refine Prog.does_call trivial (fun _ => ?_)
  refine Prog.does_call trivial (fun _ => ?_)
  split
  · rename_i hstream
    exact goes_acceptStream hr (hs.trans hstream) hn
  · rename_i hstream
    exact goes_acceptWhole hr (hs.trans (by simpa using hstream)) hn

theorem goes_leaveAlone {delay : Int} (h : ¬ empty) (hn : st.event.attempts = n)
    (hes : st.empties = es) :
    Gentle (Goes empty n es) (rateLimited.leaveAlone route st delay : M (FlowOf α)) := by
  unfold rateLimited.leaveAlone
  split
  all_goals exact Prog.does_call trivial (fun _ => Prog.does_ret (.refused _ h hn hes))

theorem goes_terminal {status : Int} {errBody : Bytes} (hn : st.event.attempts = n) :
    Gentle (Goes empty n es) (terminal route st status errBody : M (FlowOf α)) := by
  unfold terminal
  split
  all_goals
    refine Prog.does_call trivial (fun _ => ?_)
    exact goes_fail hn (by decide)

theorem goes_adapterFailed (hn : st.event.attempts = n) :
    Gentle (Goes empty n es) (adapterFailed route st : M (FlowOf α)) :=
  Prog.does_call trivial (fun _ => goes_fail hn (by decide))

theorem goes_failed (hn : st.event.attempts = n) (again : Option (Loop → M (FlowOf α))) :
    Gentle (Goes empty n es) (conclude k route again st .failed) := by
  refine Prog.does_call trivial (fun gone => ?_)
  split
  all_goals
    refine Prog.does_call trivial (fun _ => ?_)
    apply Prog.does_seq gentle_settleUnknown
    intro settled
    exact goes_fail hn (by decide)

theorem gentle_prepass (routes : List Route) : Mostly (prepass k routes) :=
  does_prepass routes (fun _ _ => trivial) (fun _ _ => trivial) (fun _ => trivial)

theorem gentle_replay {id : String} {start : Int} {e : IdemEntry} {event : Event} :
    Gentle (fun ended => ended.event.attempts = event.attempts) (replay id start e event) := by
  refine Prog.does_call trivial (fun _ => ?_)
  split
  · refine Prog.does_call trivial (fun _ => Prog.does_call trivial (fun _ => ?_))
    exact Prog.does_call trivial (fun _ => Prog.does_ret rfl)
  · refine Prog.does_call trivial (fun _ => Prog.does_call trivial (fun _ => ?_))
    refine Prog.does_call trivial (fun _ => Prog.does_call trivial (fun _ => ?_))
    exact Prog.does_call trivial (fun _ => Prog.does_ret rfl)

end

/-- By how much one operation raises a counter. -/
def rise (m : Metric) : Effect.Event Op Ans → Int
  | ⟨.tell (.count m' n), _⟩ => if m' = m then n else 0
  | _ => 0

/-- By how much a counter has been raised. -/
def risen (m : Metric) (log : List (Effect.Event Op Ans)) : Int := (log.map (rise m)).sum

@[simp] theorem risen_nil (m : Metric) : risen m [] = 0 := rfl

@[simp] theorem risen_cons (m : Metric) (e : Effect.Event Op Ans) (log : List (Effect.Event Op Ans)) :
    risen m (e :: log) = rise m e + risen m log := List.sum_cons

@[simp] theorem risen_append (m : Metric) (xs ys : List (Effect.Event Op Ans)) :
    risen m (xs ++ ys) = risen m xs + risen m ys := by
  rw [risen, List.map_append, List.sum_append]
  rfl

theorem risen_eq_zero {m : Metric} {log : List (Effect.Event Op Ans)}
    (h : ∀ e ∈ log, rise m e = 0) : risen m log = 0 := by
  induction log with
  | nil => rfl
  | cons e log ih =>
    obtain ⟨he, hlog⟩ := List.forall_mem_cons.mp h
    rw [risen_cons, he, ih hlog, Int.add_zero]

end Switchboard.Proofs.Frame
