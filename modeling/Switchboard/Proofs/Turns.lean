import Switchboard.Proofs.Frame
import Switchboard.Proofs.Shape

namespace Switchboard.Proofs.Turns
open Text Gateway Frame
open Effect (Monitor Prog)

section
variable {α β : Type} {k : Inference} {route : Route} {st : Loop}

/-- Goes on with a turn that was left open. -/
def follow (f : α → M (FlowOf β)) : FlowOf α → M (FlowOf β)
  | .next st => pure (.next st)
  | .stop st => pure (.stop st)
  | .done e => pure (.done e)
  | .again a => f a

theorem done_follow (f : α → M (FlowOf β)) (p : M Ended) :
    (FlowOf.done <$> p) >>= follow f = FlowOf.done <$> p := by
  rw [Prog.map_def, Prog.map_def, Prog.bind_assoc]
  rfl

theorem emptyAnswer_follow (f : α → M (FlowOf β)) (n : Int) :
    emptyAnswer k route st n >>= follow f = emptyAnswer k route st n := rfl

theorem acceptStream_follow (f : α → M (FlowOf β)) (contentType : String) (body : Body) :
    acceptStream k route st contentType body >>= follow f = acceptStream k route st contentType body := by
  unfold acceptStream
  rw [Prog.bind_assoc]
  refine congrArg _ (funext fun out => ?_)
  obtain ⟨out, stop⟩ := out
  cases stop with
  | empty => rfl
  | failed e =>
    dsimp only
    simp only [Prog.bind_assoc]
    rfl
  | complete =>
    dsimp only
    simp only [Prog.bind_assoc]
    rfl

theorem answer_follow (f : α → M (FlowOf β)) (n : Normalized) :
    answer k route st n >>= follow f = answer k route st n := by
  unfold answer
  simp only [Prog.bind_assoc]
  rfl

theorem acceptWhole_follow (f : α → M (FlowOf β)) (body : Body) :
    acceptWhole k route st body >>= follow f = acceptWhole k route st body := by
  unfold acceptWhole
  split
  · simp only [Prog.bind_assoc, done_follow]
  · simp only [Prog.bind_assoc]
    refine congrArg _ (funext fun _ => congrArg _ (funext fun _ => ?_))
    split
    · simp only [Prog.bind_assoc, done_follow]
    · split
      · exact emptyAnswer_follow f _
      · exact answer_follow f _

theorem accepted_follow (f : α → M (FlowOf β)) (contentType : String) (body : Body) :
    accepted k route st contentType body >>= follow f = accepted k route st contentType body := by
  unfold accepted
  simp only [Prog.bind_assoc]
  refine congrArg _ (funext fun _ => congrArg _ (funext fun _ => congrArg _ (funext fun _ => ?_)))
  split
  · exact acceptStream_follow f _ _
  · exact acceptWhole_follow f _

theorem leaveAlone_follow (f : α → M (FlowOf β)) (delay : Int) :
    rateLimited.leaveAlone route st delay >>= follow f = rateLimited.leaveAlone route st delay := by
  unfold rateLimited.leaveAlone
  split <;> rfl

/-- A turn that is followed is one that follows where it would have been left open. -/
theorem rateLimited_follow (f : α → M (FlowOf β)) (again : Option (Loop → M (FlowOf α))) (delay : Int) :
    rateLimited k route again st delay >>= follow f =
      rateLimited k route (again.map (fun a st => a st >>= follow f)) st delay := by
  unfold rateLimited
  rw [Prog.bind_assoc]
  refine congrArg _ (funext fun _ => ?_)
  cases again with
  | none => exact leaveAlone_follow f delay
  | some again =>
    simp only [Option.map_some]
    split
    · simp only [Prog.bind_assoc]
      refine congrArg _ (funext fun _ => congrArg _ (funext fun _ => congrArg _ (funext fun passed => ?_)))
      split
      · rfl
      · exact done_follow f _
    · exact leaveAlone_follow f delay

theorem terminal_follow (f : α → M (FlowOf β)) (status : Int) (errBody : Bytes) :
    terminal route st status errBody >>= follow f = terminal route st status errBody := by
  unfold terminal
  split <;> simp only [Prog.bind_assoc, done_follow]

theorem refused_follow (f : α → M (FlowOf β)) (again : Option (Loop → M (FlowOf α))) (status : Int)
    (header : String) (body : Body) :
    refused k route again st status header body >>= follow f =
      refused k route (again.map (fun a st => a st >>= follow f)) st status header body := by
  unfold refused
  simp only [Prog.bind_assoc]
  refine congrArg _ (funext fun t => ?_)
  split
  · rfl
  · exact rateLimited_follow f again _
  · simp only [Prog.bind_assoc]
    split <;> rfl
  · rfl
  · exact terminal_follow f _ _

theorem conclude_follow (f : α → M (FlowOf β)) (again : Option (Loop → M (FlowOf α))) (o : Outcome) :
    conclude k route again st o >>= follow f =
      conclude k route (again.map (fun a st => a st >>= follow f)) st o := by
  cases o with
  | failed =>
    simp only [conclude, Prog.bind_assoc]
    refine congrArg _ (funext fun gone => ?_)
    split <;> simp only [Prog.bind_assoc, done_follow]
  | response status header contentType body =>
    simp only [conclude]
    split
    · exact refused_follow f again _ _ _
    · exact accepted_follow f _ _

theorem adapterFailed_follow (f : α → M (FlowOf β)) :
    adapterFailed route st >>= follow f = adapterFailed route st := by
  unfold adapterFailed
  simp only [Prog.bind_assoc, done_follow]

theorem exchange_follow (f : α → M (FlowOf β)) (again : Option (Loop → M (FlowOf α)))
    (pc : ProviderConfig) (sent : Chat) :
    Gateway.exchange k route pc again st sent >>= follow f =
      Gateway.exchange k route pc (again.map (fun a st => a st >>= follow f)) st sent := by
  unfold Gateway.exchange
  simp only [Prog.bind_assoc]
  refine congrArg _ (funext fun u => ?_)
  cases u with
  | none => exact adapterFailed_follow f
  | some u =>
    simp only [Prog.bind_assoc]
    refine congrArg _ (funext fun res => ?_)
    split
    · simp only [Prog.bind_assoc]
      refine congrArg _ (funext fun _ => congrArg _ (funext fun _ => congrArg _ (funext fun u => ?_)))
      cases u with
      | none => exact adapterFailed_follow f
      | some u =>
        simp only [Prog.bind_assoc]
        exact congrArg _ (funext fun res => conclude_follow f again res)
    · exact conclude_follow f again res

theorem pace_follow (f : α → M (FlowOf β)) (rest : M (FlowOf α)) :
    ((pace route st : M (Option (FlowOf α))) >>= fun paced =>
        (match paced with
          | some flow => pure flow
          | none => rest) >>= follow f) =
      (pace route st : M (Option (FlowOf β))) >>= fun paced =>
        match paced with
        | some flow => pure flow
        | none => rest >>= follow f := by
  unfold pace
  split
  · rfl
  simp only [Prog.bind_assoc]
  refine congrArg _ (funext fun granted => ?_)
  split
  · simp only [Prog.bind_assoc]
    refine congrArg _ (funext fun _ => congrArg _ (funext fun _ => congrArg _ (funext fun passed => ?_)))
    split
    · rfl
    · simp only [Prog.map_def, Prog.bind_assoc]
      rfl
  · rfl

theorem attempt_follow (f : α → M (FlowOf β)) (again : Option (Loop → M (FlowOf α)))
    (pc : ProviderConfig) :
    attempt k route pc again st >>= follow f =
      attempt k route pc (again.map (fun a st => a st >>= follow f)) st := by
  unfold attempt
  split
  · rfl
  split
  · rfl
  simp only [Prog.bind_assoc]
  refine congrArg _ (funext fun allowed => ?_)
  split
  · simp only [Prog.bind_assoc]
    refine (pace_follow f _).trans (congrArg _ (funext fun paced => ?_))
    cases paced with
    | some flow => rfl
    | none =>
      simp only [Prog.bind_assoc]
      exact congrArg _ (funext fun sent => exchange_follow f again pc sent)
  · rfl

theorem turn_follow (f : α → M (FlowOf β)) (again : ProviderConfig → Option (Loop → M (FlowOf α)))
    (skip : Bool) :
    turn k route skip again st >>= follow f =
      turn k route skip (fun pc => (again pc).map (fun a st => a st >>= follow f)) st := by
  unfold turn
  split
  · rfl
  · split
    · rfl
    · exact attempt_follow f _ _

/-- A turn that cannot be left open is the same whatever would follow. -/
theorem turn_never (f : α → M (FlowOf β)) (skip : Bool) :
    turn k route skip (fun _ => none) st >>= follow f = turn k route skip (fun _ => none) st :=
  turn_follow f (fun _ => none) skip

/-- The two turns that a route may get, one after the other. -/
theorem visit_eq_turns (skip : Bool) :
    visit k route skip st =
      turn k route skip (fun _ => some (fun st => pure (.again st))) st >>=
        follow (fun st => turn k route skip (fun _ => none) st) := by
  rw [turn_follow]
  unfold visit turn
  cases hpc : k.srv.c.providers.lookup route.provider with
  | none => rfl
  | some pc =>
    cases skip with
    | true => rfl
    | false => rfl

end

/-- What the loop does once a turn has not been left open. -/
def onward (k : Inference) (rest : List (Route × Bool)) : Flow → M (Option Ended)
  | .next st => some <$> routeLoop k rest st
  | .stop st => some <$> exhausted k st
  | .done e => pure (some e)

theorem some_routeLoop (k : Inference) (route : Route) (skip : Bool) (rest : List (Route × Bool))
    (st : Loop) :
    some <$> routeLoop k ((route, skip) :: rest) st = visit k route skip st >>= onward k rest := by
  rw [routeLoop, Prog.map_def, Prog.bind_assoc]
  refine congrArg _ (funext fun flow => ?_)
  cases flow with
  | next st => rfl
  | stop st => rfl
  | done e => rfl
  | again a => cases a

/-- The loop as the source has it ends, and does what the loop over the rest of the list does: at
an index it has not gone back to, two turns for each route are enough. -/
theorem forRoutes_eq (k : Inference) (routes : List (Route × Bool)) (n : Nat) (turns i : Nat)
    (retried : List Nat) (st : Loop) (hn : routes.length - i = n) (hfresh : ∀ j ∈ retried, j < i)
    (hturns : 2 * n + 1 ≤ turns) :
    forRoutes k routes turns i retried st = some <$> routeLoop k (routes.drop i) st := by
  induction n generalizing turns i retried st with
  | zero =>
    obtain ⟨turns, rfl⟩ : ∃ t, turns = t + 1 := ⟨turns - 1, by omega⟩
    have hout : routes[i]? = none := List.getElem?_eq_none (by omega)
    rw [forRoutes, List.drop_eq_nil_of_le (by omega)]
    simp only [hout]
    rfl
  | succ n ih =>
    obtain ⟨turns, rfl⟩ : ∃ t, turns = t + 2 := ⟨turns - 2, by omega⟩
    have hlt : i < routes.length := by omega
    obtain ⟨⟨route, skip⟩, hr⟩ : ∃ r, routes[i] = r := ⟨_, rfl⟩
    have hat : routes[i]? = some (route, skip) := by rw [List.getElem?_eq_getElem hlt, hr]
    have hmem : retried.contains i = false := by
      rw [List.contains_eq_mem, decide_eq_false_iff_not]
      exact fun hi => absurd (hfresh i hi) (by omega)
    have hdrop : routes.drop i = (route, skip) :: routes.drop (i + 1) := by
      rw [List.drop_eq_getElem_cons hlt, hr]
    rw [hdrop, some_routeLoop, visit_eq_turns, Prog.bind_assoc, forRoutes]
    simp only [hat, hmem]
    refine congrArg _ (funext fun flow => ?_)
    have hnext : ∀ (t : Nat) (retried : List Nat) (st : Loop), (∀ j ∈ retried, j < i + 1) → turns ≤ t →
        forRoutes k routes t (i + 1) retried st = some <$> routeLoop k (routes.drop (i + 1)) st :=
      fun t retried st hj ht => ih t (i + 1) retried st (by omega) hj (by omega)
    cases flow with
    | next st => exact hnext _ _ _ (fun j hj => (hfresh j hj).trans (Nat.lt_succ_self i)) (by omega)
    | stop st => rfl
    | done e => rfl
    | again st =>
      have hagain : (i :: retried).contains i = true := by simp
      simp only [forRoutes, hat, hagain, if_true, follow]
      rw [← turn_never Empty.elim skip, Prog.bind_assoc]
      refine congrArg _ (funext fun flow => ?_)
      cases flow with
      | next st =>
        refine hnext _ _ _ (fun j hj => ?_) le_rfl
        rcases List.mem_cons.mp hj with rfl | hj
        · exact Nat.lt_succ_self j
        · exact (hfresh j hj).trans (Nat.lt_succ_self i)
      | stop st => rfl
      | done e => rfl
      | again a => cases a

/-- Neither a request to a provider nor one for a token of the retry bucket. -/
@[simp] def Quiet : Op → Prop
  | .send _ => False
  | .ask .retryAllow => False
  | _ => True

def isSend : Effect.Event Op Ans → Bool
  | ⟨.send _, _⟩ => true
  | _ => false

/-- A token of the retry bucket was asked for and got. -/
def isToken : Effect.Event Op Ans → Bool
  | ⟨.ask .retryAllow, got⟩ => got
  | _ => false

def sends (log : List (Effect.Event Op Ans)) : Nat := log.countP isSend

def tokens (log : List (Effect.Event Op Ans)) : Nat := log.countP isToken

/-- The event as it is once the turn is over. -/
def eventOf {α : Type} : FlowOf α → Option Event
  | .next st => some st.event
  | .stop st => some st.event
  | .done e => some e.event
  | .again _ => none

section
variable {k : Inference} {route : Route} {st : Loop} {n : Int} {α β : Type}

/-- Nothing is sent and no token is taken. -/
def Calm (p : M β) : Prop := (Monitor.only Quiet).wp (fun _ _ => True) p ()

/-- The same, and the attempts are at `n` when it is over. -/
def Still (n : Int) (p : M (FlowOf α)) : Prop :=
  (Monitor.only Quiet).wp (fun flow _ => ∃ e, eventOf flow = some e ∧ e.attempts = n) p ()

theorem quiet_of_mild (o : Op) (h : Mild o) : Quiet o := by
  cases o with
  | send u => exact h
  | ask a => cases a <;> trivial
  | _ => trivial

theorem calm_of_gentle {Q : β → Prop} {p : M β} (h : Gentle Q p) : Calm p :=
  Monitor.wp_mono (h.relax quiet_of_mild) (fun _ _ _ => trivial)

/-- The attempts are where they were once the provider has answered. -/
theorem still_of_goes {p : M (FlowOf α)} (E : Prop) (es : List EmptyRoute)
    (h : Gentle (Goes E n es) p) : Still n p := by
  refine Monitor.wp_mono (h.relax quiet_of_mild) (fun flow _ hf => ?_)
  cases hf with
  | empty st _ hn => exact ⟨st.event, rfl, hn⟩
  | refused st _ hn => exact ⟨st.event, rfl, hn⟩
  | done e hn => exact ⟨e.event, rfl, hn⟩

theorem calm_ret (b : β) : Calm (pure b) := trivial

theorem calm_bind {p : M α} {f : α → M β} (hp : Calm p) (hf : ∀ a, Calm (f a)) : Calm (p >>= f) :=
  Monitor.wp_seq hp (fun a _ _ => hf a)

theorem calm_call {o : Op} (ho : Quiet o) : Calm (Prog.call o) := ⟨ho, fun _ _ => trivial⟩

theorem still_call {o : Op} {f : Ans o → M (FlowOf α)} (ho : Quiet o) (hf : ∀ x, Still n (f x)) :
    Still n (Prog.call o >>= f) := Monitor.wp_seq (calm_call ho) (fun x _ _ => hf x)

theorem still_ret {flow : FlowOf α} {e : Event} (he : eventOf flow = some e) (hn : e.attempts = n) :
    Still n (pure flow) := ⟨e, he, hn⟩

theorem calm_prepare : Calm (prepare k route) := by
  refine calm_bind (calm_of_gentle gentle_dropTemperature) (fun sent => ?_)
  unfold markCached
  split
  · refine calm_bind (calm_call trivial) (fun worth => ?_)
    split
    · exact calm_bind (calm_call trivial) (fun _ => calm_bind (calm_call trivial) (fun _ => calm_ret _))
    · exact calm_ret _
  · exact calm_ret _

end

theorem isSend_of_quiet {e : Effect.Event Op Ans} (h : Quiet e.op) : isSend e = false := by
  obtain ⟨o, x⟩ := e
  cases o <;> first | rfl | exact h.elim

theorem isToken_of_quiet {e : Effect.Event Op Ans} (h : Quiet e.op) : isToken e = false := by
  obtain ⟨o, x⟩ := e
  cases o with
  | ask a => cases a <;> first | rfl | exact h.elim
  | _ => rfl

theorem sends_of_quiet {log : List (Effect.Event Op Ans)} (h : ∀ e ∈ log, Quiet e.op) :
    sends log = 0 :=
  List.countP_eq_zero.mpr (fun e he => by simp [isSend_of_quiet (h e he)])

theorem tokens_of_quiet {log : List (Effect.Event Op Ans)} (h : ∀ e ∈ log, Quiet e.op) :
    tokens log = 0 :=
  List.countP_eq_zero.mpr (fun e he => by simp [isToken_of_quiet (h e he)])

@[simp] theorem sends_append (xs ys : List (Effect.Event Op Ans)) :
    sends (xs ++ ys) = sends xs + sends ys := List.countP_append

@[simp] theorem tokens_append (xs ys : List (Effect.Event Op Ans)) :
    tokens (xs ++ ys) = tokens xs + tokens ys := List.countP_append

/-- The provider was to be left alone for a short time, and that time has passed. -/
def Waited (k : Inference) (log : List (Effect.Event Op Ans)) : Prop :=
  ∃ before d, 0 < d ∧ d ≤ wrap64 (k.srv.c.rateLimitRetryMaxMs * millisecond) ∧
    log = before ++ [⟨.tell (.count .rateLimitRetry 1), ()⟩, ⟨.ask (.wait d), true⟩]

theorem Waited.after {k : Inference} {log : List (Effect.Event Op Ans)} (h : Waited k log)
    (before : List (Effect.Event Op Ans)) : Waited k (before ++ log) := by
  obtain ⟨before', d, hpos, hle, rfl⟩ := h
  exact ⟨before ++ before', d, hpos, hle, (List.append_assoc ..).symm⟩

def attemptsOf : FlowOf Loop → Int
  | .next st => st.event.attempts
  | .stop st => st.event.attempts
  | .done e => e.event.attempts
  | .again st => st.event.attempts

section
variable {k : Inference} {route : Route} {st : Loop} {n : Int} {β : Type}

theorem Calm.ensures {p : M β} (h : Calm p) : p.Ensures (fun _ log => ∀ e ∈ log, Quiet e.op) :=
  (Monitor.ensures_of_only h).mono (fun _ _ hr => hr.2)

/-- How the rest of an attempt ends once it has been counted. -/
structure Counted (k : Inference) (repeatable : Bool) (n : Int) (sent : Nat) (flow : FlowOf Loop)
    (log : List (Effect.Event Op Ans)) : Prop where
  attempts : attemptsOf flow = n
  sends : sends log ≤ sent
  tokens : tokens log = 0
  waited : ∀ st, flow = .again st → repeatable = true ∧ Waited k log

variable {repeatable : Bool} {sent : Nat}

theorem Counted.after {flow : FlowOf Loop} {before log : List (Effect.Event Op Ans)}
    (h : Counted k repeatable n sent flow log) (hb : ∀ e ∈ before, Quiet e.op) :
    Counted k repeatable n sent flow (before ++ log) := by
  refine ⟨h.attempts, ?_, ?_, fun st hst => ⟨(h.waited st hst).1, (h.waited st hst).2.after before⟩⟩
  · rw [sends_append, sends_of_quiet hb, Nat.zero_add]
    exact h.sends
  · rw [tokens_append, tokens_of_quiet hb, h.tokens]

theorem counted_bind {p : M β} {f : β → M (FlowOf Loop)} (hp : Calm p)
    (hf : ∀ b, (f b).Ensures (Counted k repeatable n sent)) :
    (p >>= f).Ensures (Counted k repeatable n sent) :=
  hp.ensures.bind (fun b _ hb => (hf b).mono (fun _ _ h => h.after hb))

theorem Still.counted {p : M (FlowOf Loop)} (h : Still n p) : p.Ensures (Counted k repeatable n sent) := by
  refine (Monitor.ensures_of_only h).mono (fun flow log hr => ?_)
  obtain ⟨⟨e, he, hn⟩, hq⟩ := hr
  refine ⟨?_, (sends_of_quiet hq).trans_le (Nat.zero_le _), tokens_of_quiet hq, ?_⟩
  · cases flow with
    | again st => cases he
    | _ =>
      cases he
      exact hn
  · rintro st rfl
    cases he

/-- What the loop gives a turn to go back with, where it may. -/
def goBack (repeatable : Bool) : Option (Loop → M (FlowOf Loop)) :=
  if repeatable then some (fun st => pure (.again st)) else none

theorem counted_rateLimited {delay : Int} (h : st.event.attempts = n) :
    (rateLimited k route (goBack repeatable) st delay).Ensures (Counted k repeatable n sent) := by
  unfold rateLimited
  refine counted_bind (calm_call trivial) (fun _ => ?_)
  cases repeatable with
  | false => exact (still_of_goes False _ (goes_leaveAlone id h rfl)).counted
  | true =>
    simp only [goBack, if_true]
    split
    · rename_i hroom
      refine counted_bind (calm_call trivial) (fun _ => ?_)
      refine Prog.ensures_call (fun _ => Prog.ensures_call (fun passed => ?_))
      cases passed with
      | true =>
        refine Prog.ensures_ret ⟨h, Nat.zero_le _, rfl, fun st' _ => ⟨rfl, [], delay, hroom.2.1, hroom.2.2.1, rfl⟩⟩
      | false =>
        refine Prog.Ensures.mono (Q := Counted k true n sent) (still_of_goes False [] (goes_fail h (by decide))).counted (fun flow log hc => ?_)
        have hquiet : ∀ e ∈ ([⟨.tell (.count .rateLimitRetry 1), ()⟩, ⟨.ask (.wait delay), false⟩] :
            List (Effect.Event Op Ans)), Quiet e.op := by
          simp
        exact hc.after hquiet
    · exact (still_of_goes False _ (goes_leaveAlone id h rfl)).counted

theorem counted_refused {status : Int} {header : String} {body : Body} (h : st.event.attempts = n) :
    (refused k route (goBack repeatable) st status header body).Ensures (Counted k repeatable n sent) := by
  unfold refused
  refine counted_bind (calm_call trivial) (fun t => ?_)
  dsimp only
  split
  · refine Still.counted (still_call trivial (fun _ => still_call trivial (fun _ => ?_)))
    exact still_call trivial (fun _ => still_ret rfl h)
  · exact counted_rateLimited h
  · refine Still.counted (still_call trivial (fun _ => still_call trivial (fun _ => ?_)))
    split
    · exact still_call trivial (fun _ => still_ret rfl h)
    · exact still_ret rfl h
  · refine Still.counted (still_call trivial (fun _ => still_call trivial (fun _ => ?_)))
    exact still_ret rfl h
  · exact Still.counted (still_of_goes False [] (goes_terminal h))

theorem counted_conclude {o : Outcome} (h : st.event.attempts = n) :
    (conclude k route (goBack repeatable) st o).Ensures (Counted k repeatable n sent) := by
  cases o with
  | failed =>
    exact (still_of_goes False [] (goes_failed h _)).counted
  | response status header contentType body =>
    simp only [conclude]
    split
    · exact counted_refused h
    · have haccepted : Gentle (Goes (Emptied k.srv.lib
          (⟨route, k.chat, "", [], []⟩, .response 200 header contentType body)) n [])
          (accepted k route st contentType body : M (FlowOf Loop)) := goes_accepted rfl rfl h
      exact (still_of_goes _ _ haccepted).counted

/-- A request to a provider is one of those that may be sent. -/
theorem counted_send {u : Upstream} {f : Outcome → M (FlowOf Loop)}
    (hf : ∀ o, (f o).Ensures (Counted k repeatable n sent)) :
    (send u >>= f).Ensures (Counted k repeatable n (sent + 1)) := by
  refine Prog.ensures_call (fun o => (hf o).mono (fun flow log h => ?_))
  refine ⟨h.attempts, ?_, h.tokens, fun st hst => ⟨(h.waited st hst).1, (h.waited st hst).2.after [_]⟩⟩
  have hcons : sends (⟨.send u, o⟩ :: log) = sends log + 1 := List.countP_cons_of_pos rfl
  rw [hcons]
  exact Nat.succ_le_succ h.sends

theorem counted_exchange {pc : ProviderConfig} {chat : Chat} (h : st.event.attempts = n) :
    (Gateway.exchange k route pc (goBack repeatable) st chat).Ensures (Counted k repeatable n 2) := by
  refine counted_bind (calm_of_gentle gentle_upstream) (fun u => ?_)
  cases u with
  | none => exact (still_of_goes False [] (goes_adapterFailed h)).counted
  | some u =>
    refine counted_send (fun res => ?_)
    split
    · refine counted_bind (calm_call trivial) (fun _ => ?_)
      refine counted_bind (calm_call trivial) (fun _ => ?_)
      refine counted_bind (calm_of_gentle gentle_upstream) (fun u => ?_)
      cases u with
      | none => exact (still_of_goes False [] (goes_adapterFailed h)).counted
      | some u => exact counted_send (fun res => counted_conclude h)
    · exact counted_conclude h

/-- Whether an attempt may go on; a token is taken for each but the first. -/
theorem ensures_pace :
    (pace route st : M (Option (FlowOf Loop))).Ensures (fun paced log => sends log = 0 ∧
      match paced with
      | none => 0 < st.event.attempts → tokens log = 1
      | some flow => attemptsOf flow = st.event.attempts ∧ ∀ st', flow ≠ .again st') := by
  unfold pace
  split
  · rename_i hfirst
    exact Prog.ensures_ret ⟨rfl, fun hpos => absurd hpos (by omega)⟩
  refine Prog.ensures_call (fun granted => ?_)
  cases granted with
  | false =>
    refine Prog.ensures_call (fun _ => Prog.ensures_ret ⟨rfl, rfl, fun st' hst => ?_⟩)
    cases hst
  | true =>
    refine Prog.ensures_call (fun _ => Prog.ensures_call (fun t => Prog.ensures_call (fun passed => ?_)))
    cases passed with
    | true => exact Prog.ensures_ret ⟨rfl, fun _ => rfl⟩
    | false =>
      refine Prog.ensures_call (fun _ => ?_)
      rw [Prog.map_def, fail, Prog.bind_assoc]
      refine (calm_of_gentle (gentle_problem _ _)).ensures.bind (fun _ log hq => Prog.ensures_ret ⟨?_, rfl, fun st' hst => ?_⟩)
      · rw [List.append_nil]
        have hcons : sends log = 0 := sends_of_quiet hq
        simpa [sends, isSend] using hcons
      · cases hst

/-- What a turn of the loop can do. -/
inductive Turned (k : Inference) (repeatable : Bool) (st : Loop) (flow : FlowOf Loop)
    (log : List (Effect.Event Op Ans)) : Prop
  | idle (attempts : attemptsOf flow = st.event.attempts) (sends : sends log = 0)
      (ended : ∀ st', flow ≠ .again st') : Turned k repeatable st flow log
  | attempted (room : st.event.attempts < k.srv.c.maxAttempts)
      (attempts : attemptsOf flow = st.event.attempts + 1) (sends : sends log ≤ 2)
      (paid : 0 < st.event.attempts → tokens log = 1)
      (waited : ∀ st', flow = .again st' → repeatable = true ∧ Waited k log) :
      Turned k repeatable st flow log

theorem turned_next : (pure (.next st) : M (FlowOf Loop)).Ensures (Turned k repeatable st) :=
  Prog.ensures_ret (.idle rfl rfl (fun _ h => by cases h))

theorem turned_stop : (pure (.stop st) : M (FlowOf Loop)).Ensures (Turned k repeatable st) :=
  Prog.ensures_ret (.idle rfl rfl (fun _ h => by cases h))

/-- A quiet operation at its start makes no difference to a turn. -/
theorem Turned.after {flow : FlowOf Loop} {before log : List (Effect.Event Op Ans)}
    (h : Turned k repeatable st flow log) (hb : ∀ e ∈ before, Quiet e.op) :
    Turned k repeatable st flow (before ++ log) := by
  have hsends : sends (before ++ log) = sends log := by
    rw [sends_append, sends_of_quiet hb, Nat.zero_add]
  have htokens : tokens (before ++ log) = tokens log := by
    rw [tokens_append, tokens_of_quiet hb, Nat.zero_add]
  cases h with
  | idle attempts sends ended => exact .idle attempts (hsends.trans sends) ended
  | attempted room attempts sends paid waited =>
    refine .attempted room attempts (hsends.trans_le sends) (fun hpos => htokens.trans (paid hpos)) ?_
    intro st' hst
    exact ⟨(waited st' hst).1, (waited st' hst).2.after before⟩

theorem turned_bind {p : M β} {f : β → M (FlowOf Loop)} (hp : Calm p)
    (hf : ∀ b, (f b).Ensures (Turned k repeatable st)) : (p >>= f).Ensures (Turned k repeatable st) :=
  hp.ensures.bind (fun b _ hb => (hf b).mono (fun _ _ h => h.after hb))

theorem turned_attempt {pc : ProviderConfig} :
    (attempt k route pc (goBack repeatable) st).Ensures (Turned k repeatable st) := by
  unfold attempt
  split
  · exact turned_stop
  rename_i hroom
  split
  · exact turned_next
  refine turned_bind (calm_call trivial) (fun allowed => ?_)
  cases allowed with
  | false => exact turned_next
  | true =>
    refine ensures_pace.bind (fun paced log hpaced => ?_)
    obtain ⟨hsends, hpaced⟩ := hpaced
    cases paced with
    | some flow =>
      refine Prog.ensures_ret (.idle hpaced.1 ?_ hpaced.2)
      rw [List.append_nil]
      exact hsends
    | none =>
      have hcounted : (prepare k route >>= fun chat => Gateway.exchange k route pc (goBack repeatable)
          (st.attempting route) chat).Ensures (Counted k repeatable (st.event.attempts + 1) 2) :=
        counted_bind calm_prepare (fun chat => counted_exchange rfl)
      refine hcounted.mono (fun flow log' hc => .attempted (by omega) hc.attempts ?_ ?_ ?_)
      · rw [sends_append, hsends, Nat.zero_add]
        exact hc.sends
      · intro hpos
        rw [tokens_append, hpaced hpos, hc.tokens]
      · intro st' hst
        exact ⟨(hc.waited st' hst).1, (hc.waited st' hst).2.after log⟩

theorem turned_turn (skip : Bool) :
    (turn k route skip (fun _ => goBack repeatable) st).Ensures (Turned k repeatable st) := by
  unfold turn
  split
  · exact turned_next
  · split
    · exact Prog.ensures_call (fun _ => Prog.ensures_ret (.idle rfl rfl (fun _ h => by cases h)))
    · exact turned_attempt

end

/-- One turn of the loop: at which index, in which state, what it did and how the loop went on. -/
structure Lap where
  index : Nat
  before : Loop
  log : List (Effect.Event Op Ans)
  flow : FlowOf Loop

/-- The turn made an attempt. -/
def Lap.attempted (l : Lap) : Bool := decide (attemptsOf l.flow = l.before.event.attempts + 1)

/-- The turns of a run of the loop. -/
inductive Laps (k : Inference) (routes : List (Route × Bool)) :
    Nat → List Nat → Loop → List Lap → List (Effect.Event Op Ans) → Ended → Prop where
  | out {i : Nat} {retried : List Nat} {st : Loop} {log : List (Effect.Event Op Ans)} {e : Ended}
      (h : routes[i]? = none) (hrun : (exhausted k st).Run log (.ret e)) :
      Laps k routes i retried st [] log e
  | done {i : Nat} {retried : List Nat} {st : Loop} {log : List (Effect.Event Op Ans)} {e : Ended}
      {route : Route} {skip : Bool} (h : routes[i]? = some (route, skip))
      (hrun : (turn k route skip (fun _ => goBack !retried.contains i) st).Run log (.ret (.done e))) :
      Laps k routes i retried st [⟨i, st, log, .done e⟩] log e
  | stop {i : Nat} {retried : List Nat} {st st' : Loop} {log log' : List (Effect.Event Op Ans)}
      {e : Ended} {route : Route} {skip : Bool} (h : routes[i]? = some (route, skip))
      (hrun : (turn k route skip (fun _ => goBack !retried.contains i) st).Run log (.ret (.stop st')))
      (hend : (exhausted k st').Run log' (.ret e)) :
      Laps k routes i retried st [⟨i, st, log, .stop st'⟩] (log ++ log') e
  | next {i : Nat} {retried : List Nat} {st st' : Loop} {log log' : List (Effect.Event Op Ans)}
      {e : Ended} {route : Route} {skip : Bool} {laps : List Lap} (h : routes[i]? = some (route, skip))
      (hrun : (turn k route skip (fun _ => goBack !retried.contains i) st).Run log (.ret (.next st')))
      (rest : Laps k routes (i + 1) retried st' laps log' e) :
      Laps k routes i retried st (⟨i, st, log, .next st'⟩ :: laps) (log ++ log') e
  | again {i : Nat} {retried : List Nat} {st st' : Loop} {log log' : List (Effect.Event Op Ans)}
      {e : Ended} {route : Route} {skip : Bool} {laps : List Lap} (h : routes[i]? = some (route, skip))
      (hrun : (turn k route skip (fun _ => goBack !retried.contains i) st).Run log (.ret (.again st')))
      (rest : Laps k routes i (i :: retried) st' laps log' e) :
      Laps k routes i retried st (⟨i, st, log, .again st'⟩ :: laps) (log ++ log') e

theorem laps_of_run {k : Inference} {routes : List (Route × Bool)} {turns i : Nat} {retried : List Nat}
    {st : Loop} {log : List (Effect.Event Op Ans)} {e : Ended}
    (h : (forRoutes k routes turns i retried st).Run log (.ret (some e))) :
    ∃ laps, Laps k routes i retried st laps log e := by
  induction turns generalizing i retried st log with
  | zero => cases h
  | succ turns ih =>
    rw [forRoutes] at h
    split at h
    · rename_i hout
      obtain ⟨e', hrun, he⟩ := h.of_map
      cases he
      exact ⟨[], .out hout hrun⟩
    · rename_i route skip hat
      obtain ⟨flow, xs, ys, rfl, hturn, hrest⟩ := h.of_bind
      have hgo : (if retried.contains i then none else some (fun st => pure (.again st)) :
          Option (Loop → M (FlowOf Loop))) = goBack !retried.contains i := by
        cases hc : retried.contains i <;> rfl
      rw [hgo] at hturn
      cases flow with
      | next st' =>
        obtain ⟨laps, hlaps⟩ := ih hrest
        exact ⟨_, .next hat hturn hlaps⟩
      | stop st' =>
        obtain ⟨e', hrun, he⟩ := hrest.of_map
        cases he
        exact ⟨_, .stop hat hturn hrun⟩
      | done e' =>
        obtain ⟨rfl, he⟩ := hrest.of_ret
        cases he
        rw [List.append_nil]
        exact ⟨_, .done hat hturn⟩
      | again st' =>
        obtain ⟨laps, hlaps⟩ := ih hrest
        exact ⟨_, .again hat hturn hlaps⟩

section
variable {k : Inference} {routes : List (Route × Bool)} {i : Nat} {retried : List Nat} {st : Loop}
  {laps : List Lap} {log : List (Effect.Event Op Ans)} {e : Ended}

theorem singleton_eq_append {a b : Lap} {pre post : List Lap} (h : [a] = pre ++ b :: post) :
    pre = [] ∧ b = a ∧ post = [] := by
  cases pre with
  | nil =>
    obtain ⟨rfl, rfl⟩ := List.cons.inj h
    exact ⟨rfl, rfl, rfl⟩
  | cons p pre => simp at h

theorem ensures_exhausted (k : Inference) (st : Loop) :
    (exhausted k st).Ensures (fun e log => e.event.attempts = st.event.attempts ∧ sends log = 0) := by
  have hfail : ∀ status msg, (fail st.event false status msg).Ensures
      (fun e log => e.event.attempts = st.event.attempts ∧ sends log = 0) := by
    intro status msg
    refine (calm_of_gentle (gentle_problem status msg)).ensures.bind (fun _ log hq => Prog.ensures_ret ⟨rfl, ?_⟩)
    rw [List.append_nil]
    exact sends_of_quiet hq
  unfold exhausted
  refine Prog.ensures_call (fun _ => ?_)
  split
  · exact Prog.ensures_call (fun _ => hfail _ _)
  · exact hfail _ _

/-- What one turn does to the counts that are kept of a run. -/
theorem Turned.counts {repeatable : Bool} {flow : FlowOf Loop} (h : Turned k repeatable st flow log) :
    (sends log : Int) ≤ 2 * (attemptsOf flow - st.event.attempts) ∧
      (st.event.attempts ≤ k.srv.c.maxAttempts → attemptsOf flow ≤ k.srv.c.maxAttempts) := by
  cases h with
  | idle attempts sends ended =>
    rw [attempts, sends]
    exact ⟨by omega, fun h => h⟩
  | attempted room attempts sends paid waited =>
    rw [attempts]
    exact ⟨by omega, fun _ => room⟩

theorem Turned.countP_cons {repeatable : Bool} {l : Lap}
    (h : Turned k repeatable l.before l.flow l.log) (laps : List Lap) :
    ((l :: laps).countP Lap.attempted : Int) =
      (laps.countP Lap.attempted : Int) + (attemptsOf l.flow - l.before.event.attempts) := by
  rw [List.countP_cons, Lap.attempted]
  cases h with
  | idle attempts sends ended =>
    have hsame : ¬ l.before.event.attempts = l.before.event.attempts + 1 := by omega
    simp [attempts, hsame]
  | attempted room attempts sends paid waited =>
    have hone : l.before.event.attempts + 1 - l.before.event.attempts = 1 := by omega
    simp [attempts, hone]

/-- A turn of a run, as it is counted. -/
theorem Laps.head {route : Route} {skip : Bool} {flow : FlowOf Loop}
    (hrun : (turn k route skip (fun _ => goBack !retried.contains i) st).Run log (.ret flow)) :
    Turned k (!retried.contains i) st flow log :=
  turned_turn skip log flow hrun

theorem Laps.turned (h : Laps k routes i retried st laps log e) :
    ∀ l ∈ laps, ∃ repeatable, Turned k repeatable l.before l.flow l.log := by
  induction h with
  | out h hrun => exact fun l hl => nomatch hl
  | done h hrun => exact List.forall_mem_singleton.mpr ⟨_, Laps.head hrun⟩
  | stop h hrun hend => exact List.forall_mem_singleton.mpr ⟨_, Laps.head hrun⟩
  | next h hrun rest ih => exact List.forall_mem_cons.mpr ⟨⟨_, Laps.head hrun⟩, ih⟩
  | again h hrun rest ih => exact List.forall_mem_cons.mpr ⟨⟨_, Laps.head hrun⟩, ih⟩

/-- The attempts that a run counts are those of its turns, and it sends at most two requests
for each. -/
structure Accounted (limit : Int) (st : Loop) (laps : List Lap) (log : List (Effect.Event Op Ans))
    (e : Ended) : Prop where
  attempts : e.event.attempts = st.event.attempts + (laps.countP Lap.attempted : Int)
  sends : (sends log : Int) ≤ 2 * (e.event.attempts - st.event.attempts)
  within : st.event.attempts ≤ limit → e.event.attempts ≤ limit ∧ ∀ l ∈ laps, attemptsOf l.flow ≤ limit

theorem Accounted.cons {limit : Int} {l : Lap} {st' : Loop} {log' : List (Effect.Event Op Ans)}
    (h : Accounted limit st' laps log' e) {repeatable : Bool} (hl : Turned k repeatable l.before l.flow l.log)
    (hlimit : k.srv.c.maxAttempts = limit) (hst : attemptsOf l.flow = st'.event.attempts) :
    Accounted limit l.before (l :: laps) (l.log ++ log') e := by
  obtain ⟨hsends, hwithin⟩ := hl.counts
  refine ⟨?_, ?_, fun hle => ?_⟩
  · rw [hl.countP_cons, h.attempts, ← hst]
    omega
  · have hrest := h.sends
    rw [sends_append]
    push_cast
    omega
  · have hl := hwithin (hlimit ▸ hle)
    rw [hlimit] at hl
    obtain ⟨hend, hall⟩ := h.within (hst ▸ hl)
    exact ⟨hend, List.forall_mem_cons.mpr ⟨hl, hall⟩⟩

theorem accounted_nil {limit : Int} (he : e.event.attempts = st.event.attempts) (hs : sends log = 0) :
    Accounted limit st [] log e := by
  refine ⟨?_, ?_, fun hle => ⟨he ▸ hle, fun l hl => nomatch hl⟩⟩
  · simpa using he
  · rw [he, hs]
    simp

theorem Laps.accounted (h : Laps k routes i retried st laps log e) :
    Accounted k.srv.c.maxAttempts st laps log e := by
  induction h with
  | out h hrun =>
    obtain ⟨he, hs⟩ := ensures_exhausted _ _ _ _ hrun
    exact accounted_nil he hs
  | @done i retried st log e route skip h hrun =>
    have hnil : Accounted k.srv.c.maxAttempts ⟨e.event, []⟩ [] [] e := accounted_nil rfl rfl
    have hcons := hnil.cons (l := ⟨i, st, log, .done e⟩) (Laps.head hrun) rfl rfl
    rwa [List.append_nil] at hcons
  | stop h hrun hend =>
    obtain ⟨he, hs⟩ := ensures_exhausted _ _ _ _ hend
    exact (accounted_nil he hs).cons (l := ⟨_, _, _, _⟩) (Laps.head hrun) rfl rfl
  | next h hrun rest ih => exact ih.cons (l := ⟨_, _, _, _⟩) (Laps.head hrun) rfl rfl
  | again h hrun rest ih => exact ih.cons (l := ⟨_, _, _, _⟩) (Laps.head hrun) rfl rfl

/-- Each turn starts with the attempts of those before it. -/
theorem Laps.before (h : Laps k routes i retried st laps log e) {pre post : List Lap} {l : Lap}
    (hl : laps = pre ++ l :: post) :
    l.before.event.attempts = st.event.attempts + (pre.countP Lap.attempted : Int) := by
  induction h generalizing pre with
  | out h hrun => simp at hl
  | done h hrun =>
    obtain ⟨rfl, rfl, -⟩ := singleton_eq_append hl
    simp
  | stop h hrun hend =>
    obtain ⟨rfl, rfl, -⟩ := singleton_eq_append hl
    simp
  | next h hrun rest ih =>
    rcases pre with _ | ⟨p, pre⟩
    · obtain ⟨rfl, -⟩ := List.cons.inj hl
      simp
    · obtain ⟨rfl, hrest⟩ := List.cons.inj hl
      rw [ih hrest, (Laps.head hrun).countP_cons (l := ⟨_, _, _, _⟩)]
      simp only [attemptsOf]
      omega
  | again h hrun rest ih =>
    rcases pre with _ | ⟨p, pre⟩
    · obtain ⟨rfl, -⟩ := List.cons.inj hl
      simp
    · obtain ⟨rfl, hrest⟩ := List.cons.inj hl
      rw [ih hrest, (Laps.head hrun).countP_cons (l := ⟨_, _, _, _⟩)]
      simp only [attemptsOf]
      omega

theorem Laps.index_ge (h : Laps k routes i retried st laps log e) : ∀ l ∈ laps, i ≤ l.index := by
  induction h with
  | out h hrun => exact fun l hl => nomatch hl
  | done h hrun => exact List.forall_mem_singleton.mpr le_rfl
  | stop h hrun hend => exact List.forall_mem_singleton.mpr le_rfl
  | next h hrun rest ih =>
    exact List.forall_mem_cons.mpr ⟨le_rfl, fun l hl => (Nat.le_succ _).trans (ih l hl)⟩
  | again h hrun rest ih => exact List.forall_mem_cons.mpr ⟨le_rfl, ih⟩

/-- An index that the loop has gone back to gets one turn. -/
theorem Laps.tail_gt (h : Laps k routes i retried st laps log e) (hi : retried.contains i = true) :
    ∀ l ∈ laps.tail, i < l.index := by
  cases h with
  | out h hrun => exact fun l hl => nomatch hl
  | done h hrun => exact fun l hl => nomatch hl
  | stop h hrun hend => exact fun l hl => nomatch hl
  | next h hrun rest => exact rest.index_ge
  | again h hrun rest =>
    cases Laps.head hrun with
    | idle attempts sends ended => exact absurd rfl (ended _)
    | attempted room attempts sends paid waited =>
      have hrepeatable := (waited _ rfl).1
      rw [hi] at hrepeatable
      cases hrepeatable

theorem countP_index_eq_zero {i : Nat} (h : ∀ l ∈ laps, i < l.index) :
    laps.countP (fun l => l.index == i) = 0 := by
  refine List.countP_eq_zero.mpr (fun l hl => ?_)
  have hlt := h l hl
  simp only [beq_iff_eq]
  omega

theorem Laps.once (h : Laps k routes i retried st laps log e) (hi : retried.contains i = true) :
    laps.countP (fun l => l.index == i) ≤ 1 := by
  have htail := countP_index_eq_zero (h.tail_gt hi)
  cases laps with
  | nil => exact Nat.zero_le 1
  | cons l laps =>
    rw [List.countP_cons, List.tail_cons] at *
    rw [htail]
    split <;> omega

theorem Laps.twice (h : Laps k routes i retried st laps log e) (j : Nat) :
    laps.countP (fun l => l.index == j) ≤ 2 := by
  induction h with
  | out h hrun => exact Nat.zero_le 2
  | done h hrun => exact List.countP_le_length.trans (by simp)
  | stop h hrun hend => exact List.countP_le_length.trans (by simp)
  | @next i retried st st' log log' e route skip laps h hrun rest ih =>
    rw [List.countP_cons]
    by_cases hj : i = j
    · subst hj
      rw [countP_index_eq_zero rest.index_ge]
      split <;> omega
    · simpa [hj] using ih
  | @again i retried st st' log log' e route skip laps h hrun rest ih =>
    rw [List.countP_cons]
    by_cases hj : i = j
    · subst hj
      have honce := rest.once (by simp)
      split <;> omega
    · simpa [hj] using ih

/-- An index gets a second turn only when the first has gone back to it. -/
theorem Laps.gone_back (h : Laps k routes i retried st laps log e) {pre mid post : List Lap}
    {a b : Lap} (hl : laps = pre ++ a :: (mid ++ b :: post)) (hab : a.index = b.index) :
    mid = [] ∧ ∃ st', a.flow = .again st' := by
  induction h generalizing pre with
  | out h hrun => simp at hl
  | done h hrun =>
    obtain ⟨-, -, hnil⟩ := singleton_eq_append hl
    simp at hnil
  | stop h hrun hend =>
    obtain ⟨-, -, hnil⟩ := singleton_eq_append hl
    simp at hnil
  | @next i retried st st' log log' e route skip laps h hrun rest ih =>
    rcases pre with _ | ⟨p, pre⟩
    · obtain ⟨rfl, rfl⟩ := List.cons.inj hl
      have hb := rest.index_ge b (by simp)
      simp only at hab
      omega
    · exact ih (List.cons.inj hl).2
  | @again i retried st st' log log' e route skip laps h hrun rest ih =>
    rcases pre with _ | ⟨p, pre⟩
    · obtain ⟨rfl, rfl⟩ := List.cons.inj hl
      refine ⟨?_, st', rfl⟩
      cases mid with
      | nil => rfl
      | cons m mid =>
        have hb := rest.tail_gt (by simp) b (by simp)
        simp only at hab
        omega
    · exact ih (List.cons.inj hl).2

end

/-- The turns of a run keep to the budget of attempts. -/
structure WithinBudget (k : Inference) (laps : List Lap) (e : Ended) : Prop where
  counted : e.event.attempts = (laps.countP Lap.attempted : Int)
  ended : e.event.attempts ≤ k.srv.c.maxAttempts
  always : ∀ l ∈ laps, attemptsOf l.flow ≤ k.srv.c.maxAttempts
  twice : ∀ i, laps.countP (fun l => l.attempted && l.index == i) ≤ 2
  waited : ∀ pre a mid b post, laps = pre ++ a :: (mid ++ b :: post) → a.index = b.index →
    a.attempted = true → b.attempted = true → mid = [] ∧ Waited k a.log
  paid : ∀ pre l post, laps = pre ++ l :: post → l.attempted = true →
    (∃ a ∈ pre, a.attempted = true) → tokens l.log = 1

/-- What a token that was got has taken from the bucket. -/
def TakesToken (w w' : World) : Prop :=
  ∃ available, 1 ≤ available ∧ w'.retry.tokens = available - 1 ∧
    available = min w.retry.burst
      (w.retry.tokens + ((w.now - w.retry.last : Int) : ℚ) / (second : ℚ) * w.retry.rate)

theorem takesToken_of_granted {srv : Server} {w w' : World} {ch : Chance}
    (h : w.perform srv (.ask .retryAllow) ch = some (true, w')) : TakesToken w w' := by
  simp only [World.perform, World.answer, Option.some.injEq, Prod.mk.injEq] at h
  obtain ⟨hgot, rfl⟩ := h
  unfold Bucket.allow at hgot ⊢
  dsimp only at hgot ⊢
  split at hgot
  · cases hgot
  · rename_i henough
    rw [if_neg henough]
    exact ⟨_, Rat.not_lt.mp henough, rfl, rfl⟩

theorem Turned.waited {k : Inference} {repeatable : Bool} {st st' : Loop} {flow : FlowOf Loop}
    {log : List (Effect.Event Op Ans)} (h : Turned k repeatable st flow log) (hf : flow = .again st') :
    Waited k log := by
  cases h with
  | idle attempts sends ended => exact absurd hf (ended st')
  | attempted room attempts sends paid waited => exact (waited st' hf).2

theorem Turned.paid {k : Inference} {repeatable : Bool} {l : Lap}
    (h : Turned k repeatable l.before l.flow l.log) (hl : l.attempted = true)
    (hpos : 0 < l.before.event.attempts) : tokens l.log = 1 := by
  cases h with
  | idle attempts sends ended =>
    rw [Lap.attempted, decide_eq_true_eq, attempts] at hl
    omega
  | attempted room attempts sends paid waited => exact paid hpos

theorem Laps.withinBudget {k : Inference} {routes : List (Route × Bool)} {st : Loop}
    {laps : List Lap} {log : List (Effect.Event Op Ans)} {e : Ended}
    (h : Laps k routes 0 [] st laps log e) (hmax : 0 ≤ k.srv.c.maxAttempts) (hst : st.event.attempts = 0) :
    WithinBudget k laps e := by
  obtain ⟨hended, halways⟩ := h.accounted.within (hst ▸ hmax)
  refine ⟨?_, hended, halways, fun i => ?_, ?_, ?_⟩
  · rw [h.accounted.attempts, hst, Int.zero_add]
  · refine (List.countP_mono_left (fun l _ hl => ?_)).trans (h.twice i)
    exact (Bool.and_eq_true_iff.mp hl).2
  · intro pre a mid b post hl hab _ _
    obtain ⟨hmid, st', hagain⟩ := h.gone_back hl hab
    obtain ⟨repeatable, hturned⟩ := h.turned a (by simp [hl])
    exact ⟨hmid, hturned.waited hagain⟩
  · intro pre l post hl hattempted hearlier
    obtain ⟨repeatable, hturned⟩ := h.turned l (by simp [hl])
    have hpre : 0 < pre.countP Lap.attempted := List.countP_pos_iff.mpr hearlier
    refine hturned.paid hattempted ?_
    rw [h.before hl, hst]
    omega

theorem laps_of_routeLoop {k : Inference} {routes : List (Route × Bool)} {st : Loop}
    {log : List (Effect.Event Op Ans)} {e : Ended} (h : (routeLoop k routes st).Run log (.ret e)) :
    ∃ laps, Laps k routes 0 [] st laps log e := by
  have hloop := forRoutes_eq k routes _ _ 0 [] st rfl (fun j hj => nomatch hj) le_rfl
  have hrun : (some <$> routeLoop k routes st).Run log (.ret (some e)) := h.map some
  rw [List.drop_zero] at hloop
  rw [← hloop] at hrun
  exact laps_of_run hrun

instance (o : Op) : Nonempty (Ans o) := by
  cases o with
  | send u => exact ⟨Outcome.failed⟩
  | _ => exact inferInstance

/-- However the providers answer, the loop over the routes ends: within two turns for each route,
with at most `maxAttempts` attempts and twice as many requests sent, with a second attempt at an
index only directly after a wait that the first one asked for, and with a token of the retry bucket
taken for each attempt after the first. -/
theorem routing_within_budget (k : Inference) (hmax : 0 ≤ k.srv.c.maxAttempts)
    (routes : List (Route × Bool)) (st : Loop) (hst : st.event.attempts = 0) :
    (∀ turns, 2 * routes.length + 1 ≤ turns →
      forRoutes k routes turns 0 [] st = some <$> routeLoop k routes st) ∧
    (∀ log rest, (routeLoop k routes st).Run log rest → (sends log : Int) ≤ 2 * k.srv.c.maxAttempts) ∧
    (∀ log e, (routeLoop k routes st).Run log (.ret e) →
      ∃ laps, Laps k routes 0 [] st laps log e ∧ WithinBudget k laps e) ∧
    ∀ w w' ch, w.perform k.srv (.ask .retryAllow) ch = some (true, w') → TakesToken w w' := by
  have hbudget : ∀ log e, (routeLoop k routes st).Run log (.ret e) →
      ∃ laps, Laps k routes 0 [] st laps log e ∧ WithinBudget k laps e := by
    intro log e hrun
    obtain ⟨laps, hlaps⟩ := laps_of_routeLoop hrun
    exact ⟨laps, hlaps, hlaps.withinBudget hmax hst⟩
  refine ⟨fun turns hturns => ?_, fun log rest hrun => ?_, hbudget, fun w w' ch h => takesToken_of_granted h⟩
  · have hloop := forRoutes_eq k routes _ turns 0 [] st rfl (fun j hj => nomatch hj) hturns
    rwa [List.drop_zero] at hloop
  · -- what has been sent so far is no more than what has been sent at the end
    obtain ⟨more, e, hmore⟩ := rest.exists_run
    obtain ⟨laps, hlaps, hwithin⟩ := hbudget _ e (hrun.trans hmore)
    have hsends := hlaps.accounted.sends
    have hended := hwithin.ended
    rw [sends_append, hst] at hsends
    push_cast at hsends
    omega

/-- Providers that ask to be left alone for a second, each time they are asked. -/
def insistent : (o : Op) → Ans o
  | .send _ => .response 429 "1" "" ⟨[], false⟩
  | o => Shape.agreeable o

/-- A request to a server that would wait for two. -/
def patient : Inference :=
  { Shape.plainInference with
    srv := { NoReplay.plainServer with
      c := { NoReplay.plainConfig with rateLimitRetryMaxMs := 2000 } } }

def patientRoutes : List (Route × Bool) := [(⟨"openai", "gpt"⟩, false), (⟨"gemini", "flash"⟩, false)]

def untried : Loop := { event := {} }

def insisted : List (Effect.Event Op Ans) × Ended :=
  (routeLoop patient patientRoutes untried).answered insistent

theorem routing_within_budget_insistent :
    (insisted.2.event.attempts = 3 ∧ sends insisted.1 = 3 ∧ tokens insisted.1 = 2) ∧
      ∃ laps, Laps patient patientRoutes 0 [] untried laps insisted.1 insisted.2 ∧
        WithinBudget patient laps insisted.2 := by
  have hrun : (routeLoop patient patientRoutes untried).Run insisted.1 (.ret insisted.2) :=
    Prog.run_answered insistent (routeLoop patient patientRoutes untried)
  have hall := routing_within_budget patient (by decide) patientRoutes untried rfl
  exact ⟨by decide, hall.2.2.1 _ _ hrun⟩

end Switchboard.Proofs.Turns
