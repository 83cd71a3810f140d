import Switchboard.Proofs.Labels

namespace Switchboard.Proofs.Handling
open Text Gateway Outline Frame Turns Labels
open Effect (Monitor Prog)

/-- What the first pass finds about a route. -/
inductive Verdict where
  | barred
  | budget
  | fleet
  | clear
deriving DecidableEq, Repr

/-- The route would be passed over. -/
def Verdict.passes : Verdict → Bool
  | .budget | .fleet => true
  | .barred | .clear => false

/-- The route could be attempted. -/
def Verdict.eligible : Verdict → Bool
  | .barred => false
  | .budget | .fleet | .clear => true

/-- The first pass, with the reason for each of its answers. -/
def judge (k : Inference) : List Route → M (List Verdict)
  | [] => pure []
  | route :: routes => do
    if ← routable k.srv route k.chat.stream then
      if ← ask (.budgetSkip (budgetKey route) k.chat.maxTokens) then
        (Verdict.budget :: ·) <$> judge k routes
      else if ← ask (.fleetUnhealthy route.provider) then
        (Verdict.fleet :: ·) <$> judge k routes
      else (Verdict.clear :: ·) <$> judge k routes
    else (Verdict.barred :: ·) <$> judge k routes

/-- What the first pass tells the loop. -/
def told (vs : List Verdict) : List Bool × Nat := (vs.map Verdict.passes, vs.countP Verdict.eligible)

/-- The routes that the loop is to pass over. -/
def due (vs : List Verdict) : List Bool := skipped (told vs).1 (told vs).2

theorem told_cons (k : Inference) {routes : List Route}
    (h : prepass k routes = told <$> judge k routes) (v : Verdict) :
    told <$> ((v :: ·) <$> judge k routes) = (do
      let (skips, eligible) ← prepass k routes
      pure (v.passes :: skips, if v.eligible then eligible + 1 else eligible)) := by
  rw [h, Prog.map_def, Prog.map_def, Prog.map_def, Prog.bind_assoc, Prog.bind_assoc]
  refine congrArg _ (funext (fun vs => ?_))
  simp only [Prog.ret_bind, told, List.map_cons, List.countP_cons, Prog.pure_def]
  split <;> rfl

/-- The first pass is the judgement without its reasons. -/
theorem prepass_eq (k : Inference) (routes : List Route) :
    prepass k routes = told <$> judge k routes := by
  induction routes with
  | nil => rfl
  | cons route routes ih =>
    rw [prepass, judge, Prog.map_def, Prog.bind_assoc]
    refine congrArg _ (funext (fun able => ?_))
    cases able with
    | false => exact (told_cons k ih .barred).symm
    | true =>
      refine congrArg (Prog.op _) (funext (fun skip => ?_))
      cases skip with
      | true => exact (told_cons k ih .budget).symm
      | false =>
        refine congrArg (Prog.op _) (funext (fun unhealthy => ?_))
        cases unhealthy with
        | true => exact (told_cons k ih .fleet).symm
        | false => exact (told_cons k ih .clear).symm

/-- Each route gets a verdict, and only one that is configured is passed over. -/
structure Judged (srv : Server) (routes : List Route) (vs : List Verdict) : Prop where
  length : vs.length = routes.length
  known : ∀ x ∈ routes.zip vs, x.2.passes = true →
    (srv.c.providers.lookup x.1.provider).isSome = true

theorem judged_cons {srv : Server} {route : Route} {routes : List Route} {v : Verdict}
    {vs : List Verdict} (h : Judged srv routes vs)
    (hv : v.passes = true → (srv.c.providers.lookup route.provider).isSome = true) :
    Judged srv (route :: routes) (v :: vs) := by
  refine ⟨by simp [h.length], fun x hx => ?_⟩
  rcases List.mem_cons.mp hx with rfl | hx
  · exact hv
  · exact h.known x hx

theorem judged_judge (k : Inference) (routes : List Route) :
    (judge k routes).Does Hushed (Judged k.srv routes) := by
  induction routes with
  | nil => exact Prog.does_ret ⟨rfl, by simp⟩
  | cons route routes ih =>
    have hroutable : (routable k.srv route k.chat.stream).Does Hushed (fun able => able = true →
        (k.srv.c.providers.lookup route.provider).isSome = true) := by
      unfold routable
      split
      · exact Prog.does_ret (by simp)
      · rename_i pc hpc
        split
        · exact Prog.does_ret (by simp)
        · exact (Prog.does_op trivial).mono (fun _ _ _ => by simp [hpc])
    have hcons : ∀ v : Verdict, (v.passes = true →
        (k.srv.c.providers.lookup route.provider).isSome = true) →
        ((v :: ·) <$> judge k routes).Does Hushed (Judged k.srv (route :: routes)) :=
      fun v hv => Prog.does_bind ih (fun vs hvs => Prog.does_ret (judged_cons hvs hv))
    rw [judge]
    apply Prog.does_bind hroutable
    intro able hable
    split
    · rename_i htrue
      refine Prog.does_call trivial (fun skip => ?_)
      split
      · exact hcons .budget (fun _ => hable htrue)
      · refine Prog.does_call trivial (fun unhealthy => ?_)
        split
        · exact hcons .fleet (fun _ => hable htrue)
        · exact hcons .clear (fun h => nomatch h)
    · exact hcons .barred (fun h => nomatch h)

/-- Nothing has been attempted or passed over. -/
structure Fresh (event : Event) : Prop where
  provider : event.provider = ""
  attempts : event.attempts = 0
  skipped : event.budgetSkipped = []

/-- How a request was routed: the policy, the verdicts of the first pass, and the turns of the
loop, with nothing of note before and after. -/
structure Course (srv : Server) (log : List (Effect.Event Op Ans)) (event : Event) (k : Inference)
    (p : Policy) (vs : List Verdict) (laps : List Lap) where
  before : List (Effect.Event Op Ans)
  judged : List (Effect.Event Op Ans)
  routed : List (Effect.Event Op Ans)
  after : List (Effect.Event Op Ans)
  base : Event
  ended : Ended
  server : k.srv = srv
  log_eq : log = before ++ (⟨.currentPolicy, some p⟩ :: (judged ++ (routed ++ after)))
  before_hushed : ∀ e ∈ before, Hushed e.op
  after_hushed : ∀ e ∈ after, Hushed e.op
  fresh : Fresh base
  judge : (judge k p.routes).Run judged (.ret vs)
  loop : Laps k (p.routes.zip (due vs)) 0 [] { event := base } laps routed ended
  event_eq : Kept ended.event (.done { event := event })

/-- What becomes of a request. -/
inductive Handled (srv : Server) (log : List (Effect.Event Op Ans)) (event : Event) : Prop
  | aside (h : ∀ e ∈ log, Neutral e.op) (fresh : Fresh event)
  | routed {k : Inference} {p : Policy} {vs : List Verdict} {laps : List Lap}
      (course : Course srv log event k p vs laps)

section
variable {srv : Server} {event : Event} {pre log post : List (Effect.Event Op Ans)}

theorem Handled.prepend (h : Handled srv log event) (hpre : ∀ e ∈ pre, Hushed e.op) :
    Handled srv (pre ++ log) event := by
  cases h with
  | aside h fresh =>
    refine .aside (fun e he => ?_) fresh
    rcases List.mem_append.mp he with he | he
    · exact neutral_of_hushed (hpre e he)
    · exact h e he
  | routed c =>
    refine .routed { c with before := pre ++ c.before, log_eq := ?_, before_hushed := fun e he => ?_ }
    · exact (congrArg (pre ++ ·) c.log_eq).trans (List.append_assoc ..).symm
    · rcases List.mem_append.mp he with he | he
      · exact hpre e he
      · exact c.before_hushed e he

theorem Handled.append (h : Handled srv log event) (hpost : ∀ e ∈ post, Hushed e.op) :
    Handled srv (log ++ post) event := by
  cases h with
  | aside h fresh =>
    refine .aside (fun e he => ?_) fresh
    rcases List.mem_append.mp he with he | he
    · exact h e he
    · exact neutral_of_hushed (hpost e he)
  | routed c =>
    refine .routed { c with after := c.after ++ post, log_eq := ?_, after_hushed := fun e he => ?_ }
    · exact (congrArg (· ++ post) c.log_eq).trans (by simp)
    · rcases List.mem_append.mp he with he | he
      · exact c.after_hushed e he
      · exact hpost e he

theorem Handled.relabel {event' : Event} (h : Handled srv log event)
    (he : Kept event (.done { event := event' })) : Handled srv log event' := by
  cases h with
  | aside h fresh =>
    exact .aside h ⟨he.provider.trans fresh.provider, he.attempts.trans fresh.attempts,
      he.skipped.trans fresh.skipped⟩
  | routed c =>
    exact .routed { c with event_eq := ⟨he.provider.trans c.event_eq.provider,
      he.attempts.trans c.event_eq.attempts, he.skipped.trans c.event_eq.skipped⟩ }

variable {β : Type}

/-- The request is handled like this by a program that ends it. -/
abbrev Handles (srv : Server) (p : M Ended) : Prop :=
  p.Ensures (fun e log => Handled srv log e.event)

theorem handles_seq {p : M β} {f : β → M Ended} (hp : p.Does Hushed (fun _ => True))
    (hf : ∀ b, Handles srv (f b)) : Handles srv (p >>= f) :=
  hp.ensures.bind (fun b _ hb => (hf b).mono (fun _ _ h => h.prepend hb.2))

theorem handles_call {o : Op} {f : Ans o → M Ended} (ho : Hushed o) (hf : ∀ x, Handles srv (f x)) :
    Handles srv (Prog.call o >>= f) :=
  handles_seq (Prog.does_op ho) hf

theorem handles_aside {p : M Ended} (h : p.Does Neutral (fun e => Fresh e.event)) : Handles srv p :=
  h.ensures.mono (fun _ _ ha => .aside ha.2 ha.1)

theorem handles_then {p : M Ended} {f : Ended → M Ended} (hp : Handles srv p)
    (hf : ∀ e, (f e).Does Hushed (fun e' => Kept e.event (.done e'))) : Handles srv (p >>= f) := by
  refine hp.bind (fun e log h => (hf e).ensures.mono (fun e' post he => ?_))
  exact (h.append he.2).relabel ⟨he.1.provider, he.1.attempts, he.1.skipped⟩

theorem handles_fail {settled : Bool} {status : Int} {msg : String} (h : Fresh event) :
    Handles srv (fail event settled status msg) := by
  apply handles_aside
  apply Prog.does_seq ((framed_problem status msg).relax neutral_of_framed)
  intro _
  exact Prog.does_ret ⟨h.provider, h.attempts, h.skipped⟩

theorem handles_dispatch {k : Inference} (hk : k.srv = srv) (h : Fresh event) :
    Handles srv (dispatch k event) := by
  intro log e hrun
  obtain ⟨p, rest, rfl, hrest⟩ := hrun.of_call
  cases p with
  | none =>
    have hone : ∀ e ∈ [(⟨.currentPolicy, none⟩ : Effect.Event Op Ans)], Hushed e.op := by simp
    exact (handles_fail h rest e hrest).prepend hone
  | some p =>
    obtain ⟨r, judged, routed, rfl, hjudged, hrouted⟩ := hrest.of_bind
    rw [prepass_eq] at hjudged
    obtain ⟨vs, hvs, rfl⟩ := hjudged.of_map
    obtain ⟨laps, hlaps⟩ := laps_of_routeLoop hrouted
    exact .routed {
      before := [], judged := judged, routed := routed, after := [], ended := e, server := hk
      base := { event with policyVersion := p.version }
      log_eq := by simp
      before_hushed := by simp
      after_hushed := by simp
      fresh := ⟨h.provider, h.attempts, h.skipped⟩
      judge := hvs
      loop := hlaps
      event_eq := ⟨rfl, rfl, rfl⟩ }

theorem handles_replay {id : String} {start : Int} {e : IdemEntry} (h : Fresh event) :
    Handles srv (replay id start e event) := by
  apply handles_aside
  refine Prog.does_call (by simp [labelNames]) (fun _ => ?_)
  split
  · refine Prog.does_call (by simp [labelNames]) (fun _ => Prog.does_call trivial (fun _ => ?_))
    exact Prog.does_call trivial (fun _ => Prog.does_ret ⟨h.provider, h.attempts, h.skipped⟩)
  · refine Prog.does_call (by simp [labelNames]) (fun _ => Prog.does_call (by simp [labelNames]) (fun _ => ?_))
    refine Prog.does_call (by simp [labelNames]) (fun _ => Prog.does_call trivial (fun _ => ?_))
    exact Prog.does_call trivial (fun _ => Prog.does_ret ⟨h.provider, h.attempts, h.skipped⟩)

theorem handles_claim {k : Inference} (hk : k.srv = srv) (h : Fresh event) :
    Handles srv (claim k event) := by
  unfold claim
  split
  · exact handles_dispatch hk h
  · refine handles_call trivial (fun r => ?_)
    split
    · exact handles_fail h
    · exact handles_fail h
    · exact handles_replay h
    · refine handles_then (handles_dispatch hk h) (fun e => ?_)
      split
      · exact Prog.does_call trivial (fun _ => Prog.does_ret ⟨rfl, rfl, rfl⟩)
      · exact Prog.does_ret ⟨rfl, rfl, rfl⟩

theorem hushed_of_clerical (o : Op) (h : Clerical o) : Hushed o := by
  cases o with
  | setHeader name value =>
    simp only [Clerical, List.mem_cons, List.not_mem_nil, or_false] at h
    rcases h with rfl | rfl | rfl <;> simp [labelNames]
  | tell o =>
    cases o with
    | count m n => cases m <;> trivial
    | _ => trivial
  | ask o => cases o <;> trivial
  | send u => cases h
  | delHeader name => cases h
  | write b => cases h
  | writeHeader s => cases h
  | _ => trivial

theorem hushed_of_finishing (o : Op) (h : Finishing o) : Hushed o := by
  cases o with
  | tell o =>
    cases o with
    | count m n => cases m <;> trivial
    | _ => trivial
  | now => trivial
  | _ => cases h

theorem handles_serve {r : Request} {id : String} {start : Int} (h : Fresh event) :
    Handles srv (serve srv r id start event) := by
  refine Serves.serve ⟨?_, fun _ => handles_fail h, ?_⟩ (fun b c _ => handles_claim rfl h)
  · exact fun ho hf => handles_call (hushed_of_clerical _ ho) hf
  · intro p f hp hf
    apply handles_then hp
    intro e
    refine ((hf e).relax (fun o ho => hushed_of_clerical o (clerical_of_leaving o ho))).mono ?_
    intro e' he
    rw [← he]
    exact ⟨rfl, rfl, rfl⟩

end

/-- Every request is handled like this. -/
theorem handled_of_run {srv : Server} {r : Request} {log : List (Effect.Event Op Ans)} {event : Event}
    (h : (chat srv r).Run log (.ret event)) : Handled srv log event := by
  have hchat : (chat srv r).Ensures (fun event log => Handled srv log event) := by
    apply chat_of_serve
    · intro o f ho hf
      refine Prog.ensures_call (fun x => (hf x).mono (fun event log h => ?_))
      exact Handled.prepend h (List.forall_mem_singleton.mpr (hushed_of_clerical o ho))
    · intro id eventID trace span parent start
      refine (handles_serve ⟨rfl, rfl, rfl⟩).bind (fun ended log h => ?_)
      refine (does_epilogue.relax hushed_of_finishing).ensures.mono (fun event post he => ?_)
      obtain ⟨⟨t, rfl⟩, hpost⟩ := he
      exact (h.append hpost).relabel ⟨rfl, rfl, rfl⟩
  exact hchat log event h

end Switchboard.Proofs.Handling
