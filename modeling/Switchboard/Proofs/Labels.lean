import Switchboard.Proofs.Bookkeeping

namespace Switchboard.Proofs.Labels
open Text Gateway Outline Frame Turns Bookkeeping
open Effect (Monitor Prog)

/-- The headers by which a response says what became of the request. -/
def labelNames : List String :=
  ["X-Switchboard-Provider", "X-Switchboard-Attempts", "X-Switchboard-Prompt-Cache"]

/-- The headers of a response: as they have been set, and as they went out with the first byte. -/
structure Slate where
  pending : String → Option String := fun _ => none
  shown : Option (String → Option String) := none

def Slate.flush (g : Slate) : Slate := { g with shown := some (g.shown.getD g.pending) }

def Slate.note (g : Slate) : Effect.Event Op Ans → Slate
  | ⟨.setHeader name value, _⟩ => { g with pending := Function.update g.pending name (some value) }
  | ⟨.delHeader name, _⟩ => { g with pending := Function.update g.pending name none }
  | ⟨.writeHeader _, _⟩ => g.flush
  | ⟨.write _, _⟩ => g.flush
  | _ => g

def Slate.after (g : Slate) (log : List (Effect.Event Op Ans)) : Slate := log.foldl Slate.note g

/-- The headers that the client has got. -/
def Slate.received (g : Slate) : String → Option String := g.shown.getD g.pending

@[simp] theorem after_nil (g : Slate) : g.after [] = g := rfl

@[simp] theorem after_cons (g : Slate) (e : Effect.Event Op Ans) (log : List (Effect.Event Op Ans)) :
    g.after (e :: log) = (g.note e).after log := rfl

@[simp] theorem after_append (g : Slate) (xs ys : List (Effect.Event Op Ans)) :
    g.after (xs ++ ys) = (g.after xs).after ys := List.foldl_append

/-- Neither a label nor anything that decides on one, and nothing that is counted as skipped. -/
@[simp] def Neutral : Op → Prop
  | .setHeader name _ => name ∉ labelNames
  | .delHeader name => name ∉ labelNames
  | .tell (.count .budgetSkip _) => False
  | .ask (.worthCaching _) => False
  | .send _ => False
  | _ => True

/-- The same, with nothing for the client. -/
@[simp] def Hushed : Op → Prop
  | .write _ => False
  | .writeHeader _ => False
  | o => Neutral o

/-- What went out agrees with what is set, as far as labels go. -/
def Slate.Agrees (g : Slate) : Prop :=
  ∀ h, g.shown = some h → ∀ name ∈ labelNames, h name = g.pending name

theorem Slate.Agrees.received {g : Slate} (h : g.Agrees) :
    ∀ name ∈ labelNames, g.received name = g.pending name := by
  intro name hname
  unfold Slate.received
  cases hs : g.shown with
  | none => rfl
  | some s => exact h s hs name hname

theorem agrees_of_unshown {g : Slate} (h : g.shown = none) : g.Agrees := by
  intro s hs
  rw [h] at hs
  cases hs

/-- A provider has accepted the request. -/
def isAccept : Effect.Event Op Ans → Bool
  | ⟨.send _, .response status _ _ _⟩ => status == 200
  | _ => false

/-- The system prompt has been found to be worth caching. -/
def isMark : Effect.Event Op Ans → Bool
  | ⟨.ask (.worthCaching _), worth⟩ => worth
  | _ => false

theorem neutral_of_hushed {o : Op} (h : Hushed o) : Neutral o := by
  cases o with
  | write b => cases h
  | writeHeader s => cases h
  | _ => exact h

theorem update_other {f : String → Option String} {name : String} (h : name ∉ labelNames)
    (v : Option String) : ∀ n ∈ labelNames, Function.update f name v n = f n := by
  intro n hn
  apply Function.update_of_ne
  intro he
  exact h (he ▸ hn)

/-- The two slates have the same labels. -/
def Same (g g' : Slate) : Prop := ∀ name ∈ labelNames, g'.pending name = g.pending name

section
variable {g : Slate} {e : Effect.Event Op Ans} {log : List (Effect.Event Op Ans)}

theorem flush_agrees (h : g.Agrees) : g.flush.Agrees := by
  intro s hs name hname
  obtain rfl := Option.some.inj hs
  exact h.received name hname

theorem neutral_note (he : Neutral e.op) (h : g.Agrees) : Same g (g.note e) ∧ (g.note e).Agrees := by
  have hsame : Same g g := fun _ _ => rfl
  have hset : ∀ (name : String) (v : Option String), name ∉ labelNames →
      Same g { g with pending := Function.update g.pending name v } ∧
        Slate.Agrees { g with pending := Function.update g.pending name v } := by
    intro name v hname
    refine ⟨update_other hname v, fun s hs n hn => ?_⟩
    exact (h s hs n hn).trans (update_other hname v n hn).symm
  obtain ⟨o, x⟩ := e
  cases o with
  | setHeader name v => exact hset name (some v) he
  | delHeader name => exact hset name none he
  | writeHeader s => exact ⟨hsame, flush_agrees h⟩
  | write b => exact ⟨hsame, flush_agrees h⟩
  | _ => exact ⟨hsame, h⟩

theorem hushed_note (he : Hushed e.op) : Same g (g.note e) ∧ (g.note e).shown = g.shown := by
  obtain ⟨o, x⟩ := e
  cases o with
  | setHeader name v => exact ⟨update_other he (some v), rfl⟩
  | delHeader name => exact ⟨update_other he none, rfl⟩
  | writeHeader s => cases he
  | write b => cases he
  | _ => exact ⟨fun _ _ => rfl, rfl⟩

theorem neutral_after (hlog : ∀ e ∈ log, Neutral e.op) (h : g.Agrees) :
    Same g (g.after log) ∧ (g.after log).Agrees := by
  induction log generalizing g with
  | nil => exact ⟨fun _ _ => rfl, h⟩
  | cons e log ih =>
    obtain ⟨he, hrest⟩ := List.forall_mem_cons.mp hlog
    obtain ⟨hsame, hagrees⟩ := neutral_note he h
    obtain ⟨hsame', hagrees'⟩ := ih hrest hagrees
    exact ⟨fun n hn => (hsame' n hn).trans (hsame n hn), hagrees'⟩

theorem hushed_after (hlog : ∀ e ∈ log, Hushed e.op) :
    Same g (g.after log) ∧ (g.after log).shown = g.shown := by
  induction log generalizing g with
  | nil => exact ⟨fun _ _ => rfl, rfl⟩
  | cons e log ih =>
    obtain ⟨he, hrest⟩ := List.forall_mem_cons.mp hlog
    obtain ⟨hsame, hshown⟩ := hushed_note he
    obtain ⟨hsame', hshown'⟩ := ih hrest
    exact ⟨fun n hn => (hsame' n hn).trans (hsame n hn), hshown'.trans hshown⟩

theorem isAccept_of_neutral (h : Neutral e.op) : isAccept e = false := by
  obtain ⟨o, x⟩ := e
  cases o with
  | send u => cases h
  | _ => rfl

theorem isMark_of_neutral (h : Neutral e.op) : isMark e = false := by
  obtain ⟨o, x⟩ := e
  cases o with
  | ask o => cases o <;> first | rfl | cases h
  | _ => rfl

theorem rise_of_neutral (h : Neutral e.op) : rise .budgetSkip e = 0 := by
  obtain ⟨o, x⟩ := e
  cases o with
  | tell o =>
    cases o with
    | count m n => cases m <;> first | rfl | cases h
    | _ => rfl
  | _ => rfl

end

/-- The labels once an attempt has been accepted or its prompt marked, for the `n`th attempt. -/
def stamp (route : Route) (n : Int) (log : List (Effect.Event Op Ans)) (f : String → Option String)
    (name : String) : Option String :=
  if name = "X-Switchboard-Provider" then
    if log.any isAccept then some route.provider else f name
  else if name = "X-Switchboard-Attempts" then
    if log.any isAccept then some (Strings.itoa n) else f name
  else if name = "X-Switchboard-Prompt-Cache" then
    if log.any isMark then some "system" else f name
  else f name

theorem stamp_append {route : Route} {n : Int} {xs ys : List (Effect.Event Op Ans)}
    {f f' : String → Option String} {name : String} (h : f' name = stamp route n xs f name) :
    stamp route n ys f' name = stamp route n (xs ++ ys) f name := by
  unfold stamp at h ⊢
  rw [List.any_append, List.any_append, h]
  cases xs.any isAccept <;> cases ys.any isAccept <;> cases xs.any isMark <;> cases ys.any isMark <;>
    simp <;> grind

theorem stamp_neutral {route : Route} {n : Int} {log : List (Effect.Event Op Ans)}
    {f : String → Option String} {name : String} (h : ∀ e ∈ log, Neutral e.op) :
    stamp route n log f name = f name := by
  have haccept : log.any isAccept = false :=
    List.any_eq_false.mpr (fun e he => by simp [isAccept_of_neutral (h e he)])
  have hmark : log.any isMark = false :=
    List.any_eq_false.mpr (fun e he => by simp [isMark_of_neutral (h e he)])
  simp [stamp, haccept, hmark]

/-- The event that a turn leaves. -/
def loopEvent : FlowOf Loop → Event
  | .next st => st.event
  | .stop st => st.event
  | .again st => st.event
  | .done e => e.event

def isDone : FlowOf Loop → Bool
  | .done _ => true
  | _ => false

/-- The event says what it said about providers. -/
structure Kept (event : Event) (flow : FlowOf Loop) : Prop where
  provider : (loopEvent flow).provider = event.provider
  attempts : (loopEvent flow).attempts = event.attempts
  skipped : (loopEvent flow).budgetSkipped = event.budgetSkipped

/-- What part of an attempt has done by the time nothing has gone out. -/
structure Stamping (route : Route) (n : Int) (log : List (Effect.Event Op Ans)) : Prop where
  uncounted : risen .budgetSkip log = 0
  labels : ∀ g : Slate, g.shown = none → ∀ name ∈ labelNames,
    (g.after log).pending name = stamp route n log g.pending name
  unshown : ∀ g : Slate, g.shown = none → (g.after log).shown = none

/-- What the rest of an attempt does. -/
structure Stamped (route : Route) (n : Int) (event : Event) (flow : FlowOf Loop)
    (log : List (Effect.Event Op Ans)) : Prop where
  kept : Kept event flow
  uncounted : risen .budgetSkip log = 0
  labels : ∀ g : Slate, g.shown = none → ∀ name ∈ labelNames,
    (g.after log).pending name = stamp route n log g.pending name
  agrees : ∀ g : Slate, g.shown = none → (g.after log).Agrees
  unshown : isDone flow = false → ∀ g : Slate, g.shown = none → (g.after log).shown = none

section
variable {route : Route} {n : Int} {event : Event} {flow : FlowOf Loop}
  {pre log : List (Effect.Event Op Ans)}

theorem stamping_of_hushed (h : ∀ e ∈ log, Hushed e.op) : Stamping route n log := by
  have hneutral : ∀ e ∈ log, Neutral e.op := fun e he => neutral_of_hushed (h e he)
  constructor
  · exact risen_eq_zero (fun e he => rise_of_neutral (hneutral e he))
  · intro g _ name hname
    rw [stamp_neutral hneutral]
    exact (hushed_after h).1 name hname
  · intro g hg
    rw [(hushed_after h).2, hg]

theorem Stamped.after (h : Stamped route n event flow log) (hpre : Stamping route n pre) :
    Stamped route n event flow (pre ++ log) := by
  constructor
  · exact h.kept
  · rw [risen_append, hpre.uncounted, h.uncounted, Int.add_zero]
  · intro g hg name hname
    rw [after_append, h.labels _ (hpre.unshown g hg) name hname]
    exact stamp_append (hpre.labels g hg name hname)
  · intro g hg
    rw [after_append]
    exact h.agrees _ (hpre.unshown g hg)
  · intro hd g hg
    rw [after_append]
    exact h.unshown hd _ (hpre.unshown g hg)

/-- What is done once a response has been accepted or refused. -/
structure Tidy (event : Event) (flow : FlowOf Loop) (log : List (Effect.Event Op Ans)) : Prop where
  kept : Kept event flow
  neutral : ∀ e ∈ log, Neutral e.op
  hushed : isDone flow = false → ∀ e ∈ log, Hushed e.op

theorem Tidy.stamped (h : Tidy event flow log) : Stamped route n event flow log := by
  constructor
  · exact h.kept
  · exact risen_eq_zero (fun e he => rise_of_neutral (h.neutral e he))
  · intro g hg name hname
    rw [stamp_neutral h.neutral]
    exact (neutral_after h.neutral (agrees_of_unshown hg)).1 name hname
  · intro g hg
    exact (neutral_after h.neutral (agrees_of_unshown hg)).2
  · intro hd g hg
    rw [(hushed_after (h.hushed hd)).2, hg]

theorem Tidy.after (h : Tidy event flow log) (hpre : ∀ e ∈ pre, Hushed e.op) :
    Tidy event flow (pre ++ log) := by
  refine ⟨h.kept, fun e he => ?_, fun hd e he => ?_⟩
  · rcases List.mem_append.mp he with he | he
    · exact neutral_of_hushed (hpre e he)
    · exact h.neutral e he
  · rcases List.mem_append.mp he with he | he
    · exact hpre e he
    · exact h.hushed hd e he

variable {α β : Type}

theorem tidy_seq {p : M α} {f : α → M (FlowOf Loop)} (hp : p.Does Hushed (fun _ => True))
    (hf : ∀ a, (f a).Ensures (Tidy event)) : (p >>= f).Ensures (Tidy event) :=
  hp.ensures.bind (fun a _ hb => (hf a).mono (fun _ _ h => h.after hb.2))

theorem tidy_call {o : Op} {f : Ans o → M (FlowOf Loop)} (ho : Hushed o)
    (hf : ∀ x, (f x).Ensures (Tidy event)) : (Prog.call o >>= f).Ensures (Tidy event) :=
  tidy_seq (Prog.does_op ho) hf

theorem tidy_ret (h : Kept event flow) : (pure flow : M (FlowOf Loop)).Ensures (Tidy event) :=
  Prog.ensures_ret ⟨h, by simp, by simp⟩

/-- The last part of a request that it ends with. -/
theorem tidy_done {p : M Ended} (h : p.Does Neutral (fun e => Kept event (.done e))) :
    (FlowOf.done <$> p : M (FlowOf Loop)).Ensures (Tidy event) := by
  intro log flow hrun
  obtain ⟨e, hp, rfl⟩ := hrun.of_map
  obtain ⟨hkept, hneutral⟩ := h.ensures log e hp
  exact ⟨hkept, hneutral, fun hd => by simp [isDone] at hd⟩

end

theorem neutral_of_framed (o : Op) (h : Framed o) : Neutral o := by
  have hname : ∀ name ∈ framing, name ∉ labelNames := by decide
  cases o with
  | setHeader name v => exact hname name h
  | delHeader name => exact hname name h
  | tell o =>
    cases o with
    | count m n => cases m <;> trivial
    | _ => cases h
  | ask o => cases h
  | send u => cases h
  | _ => trivial

theorem hushed_of_recording (o : Op) (h : Recording o) : Hushed o := by
  cases o with
  | tell o => cases o <;> trivial
  | now => trivial
  | finishKey key e => trivial
  | _ => cases h

/-- What has gone to the client is not taken back. -/
theorem shown_next {srv : Server} {A : Tally.Assume} {g : Tally.Sheet} (o : Op) (x : Ans o)
    (h : ((Tally.account srv A).next g o x).shown = none) :
    g.shown = none ∧ (∀ b, o ≠ .write b) ∧ ∀ s, o ≠ .writeHeader s := by
  cases o with
  | write b => cases h
  | writeHeader s => cases h
  | wouldAllow p => cases x <;> exact ⟨h, nofun, nofun⟩
  | allow p => cases x <;> exact ⟨h, nofun, nofun⟩
  | ask o => cases o <;> exact ⟨h, nofun, nofun⟩
  | tell o => cases o <;> exact ⟨h, nofun, nofun⟩
  | _ => exact ⟨h, nofun, nofun⟩

theorem silent_of_unshown {srv : Server} {A : Tally.Assume} {g : Tally.Sheet}
    {log : List (Effect.Event Op Ans)} (h : ((Tally.account srv A).after g log).shown = none) :
    g.shown = none ∧ ∀ e ∈ log, (∀ b, e.op ≠ .write b) ∧ ∀ s, e.op ≠ .writeHeader s := by
  induction log generalizing g with
  | nil => exact ⟨h, by simp⟩
  | cons e log ih =>
    rw [Monitor.after_cons] at h
    obtain ⟨hnext, hrest⟩ := ih h
    obtain ⟨hg, hwrite⟩ := shown_next e.op e.ans hnext
    exact ⟨hg, List.forall_mem_cons.mpr ⟨hwrite, hrest⟩⟩

section
variable {k : Inference} {route : Route} {st : Loop} {event : Event}

/-- A stream sets no label, and an empty one says nothing to the client. -/
theorem ensures_stream (contentType : String) (body : Body) :
    (stream k route contentType body).Ensures (fun r log => (∀ e ∈ log, Neutral e.op) ∧
      (r.2 = .empty → ∀ e ∈ log, Hushed e.op)) := by
  intro log r hrun
  have hneutral : ∀ e ∈ log, Neutral e.op := by
    intro e he
    exact neutral_of_framed _ ((framed_stream.ensures log r hrun).2 e he)
  refine ⟨hneutral, fun hempty e he => ?_⟩
  have hmay : ∀ g o x, (Tally.account k.srv {}).may g o x := by
    intro g o x
    cases o with
    | now => exact fun h => h.elim
    | randomID n => exact fun h => h.elim
    | currentPolicy => exact fun _ _ => trivial
    | allow p => exact fun h => h.elim
    | _ => trivial
  have hspec : (Tally.account k.srv {}).wp (Tally.Streamed k.srv.lib route contentType body {})
      (stream k route contentType body) {} := Tally.stream_spec k route contentType body rfl
  have hstreamed : Tally.Streamed k.srv.lib route contentType body {} r
      ((Tally.account k.srv {}).after {} log) :=
    Monitor.wp_run hrun hspec (Monitor.relied_of_may hmay _ _)
  have hshown : ((Tally.account k.srv {}).after {} log).shown = none := by
    rw [hstreamed.empty hempty]
  obtain ⟨hwrite, hhead⟩ := (silent_of_unshown hshown).2 e he
  have hsilent := hneutral e he
  cases ho : e.op with
  | write b => exact absurd ho (hwrite b)
  | writeHeader s => exact absurd ho (hhead s)
  | _ =>
    rw [ho] at hsilent
    exact hsilent

theorem kept_refl (st : Loop) : Kept st.event (.next st) := ⟨rfl, rfl, rfl⟩

theorem hushed_records {β : Type} {p : M β} (h : Records p) : p.Does Hushed (fun _ => True) :=
  h.relax hushed_of_recording

theorem tidy_fail {event' : Event} {settled : Bool} {status : Int} {msg : String}
    (h : event'.provider = event.provider ∧ event'.attempts = event.attempts ∧
      event'.budgetSkipped = event.budgetSkipped) :
    (FlowOf.done <$> fail event' settled status msg : M (FlowOf Loop)).Ensures (Tidy event) := by
  apply tidy_done
  apply Prog.does_seq ((framed_problem status msg).relax neutral_of_framed)
  intro _
  exact Prog.does_ret ⟨h.1, h.2.1, h.2.2⟩

theorem tidy_emptyAnswer {event : Event} {reasoning : Int} (h : Kept event (.next st)) :
    (emptyAnswer k route st reasoning : M (FlowOf Loop)).Ensures (Tidy event) :=
  tidy_call trivial (fun _ => tidy_call trivial (fun _ =>
    tidy_ret ⟨h.provider, h.attempts, h.skipped⟩))

theorem tidy_acceptStream {contentType : String} {body : Body} :
    (acceptStream k route st contentType body : M (FlowOf Loop)).Ensures (Tidy st.event) := by
  -- what follows the stream says nothing more to the client
  have hafter : ∀ {p : M (FlowOf Loop)} {pre : List (Effect.Event Op Ans)},
      (∀ e ∈ pre, Neutral e.op) → p.Does Hushed (fun flow => isDone flow = true ∧ Kept st.event flow) →
      p.Ensures (fun flow log => Tidy st.event flow (pre ++ log)) := by
    intro p pre hpre hp log flow hrun
    obtain ⟨⟨hdone, hkept⟩, hhushed⟩ := hp.ensures log flow hrun
    refine ⟨hkept, fun e he => ?_, fun hd => by simp [hdone] at hd⟩
    rcases List.mem_append.mp he with he | he
    · exact hpre e he
    · exact neutral_of_hushed (hhushed e he)
  refine (ensures_stream contentType body).bind (fun r pre hpre => ?_)
  obtain ⟨out, stop⟩ := r
  cases stop with
  | empty =>
    have htail : (settle route.provider (.result false) >>= fun _ =>
        (emptyAnswer k route st 0 : M (FlowOf Loop))).Ensures (Tidy st.event) :=
      tidy_call trivial (fun _ => tidy_emptyAnswer (kept_refl st))
    exact htail.mono (fun flow log h => h.after (hpre.2 rfl))
  | failed err =>
    apply hafter hpre.1
    refine Prog.does_call trivial (fun _ => ?_)
    apply Prog.does_seq (hushed_records records_settleUnknown)
    intro settled
    exact Prog.does_ret ⟨rfl, rfl, rfl, rfl⟩
  | complete =>
    apply hafter hpre.1
    refine Prog.does_call trivial (fun _ => ?_)
    apply Prog.does_seq (hushed_records records_observeBudget)
    intro _
    refine Prog.does_seq (does_tellIf trivial) (fun _ => ?_)
    apply Prog.does_seq (hushed_records records_settleDone)
    intro settled
    exact Prog.does_ret ⟨rfl, rfl, rfl, rfl⟩

theorem tidy_answer {event : Event} {m : Normalized} (h : Kept event (.next st)) :
    (answer k route st m : M (FlowOf Loop)).Ensures (Tidy event) := by
  have hwrite : ∀ (settled : Bool) (body : Json), (do
      setHeader "Content-Type" "application/json"
      let _ ← write (GoJson.marshal body)
      pure (.done { event := { st.event with status := 200 }, settled := settled,
                    completion := some body }) : M (FlowOf Loop)).Ensures (Tidy event) := by
    intro settled body log flow hrun
    obtain ⟨_, written, rfl, hwritten⟩ := hrun.of_call
    obtain ⟨_, ended, rfl, hended⟩ := hwritten.of_call
    obtain ⟨rfl, rfl⟩ := hended.of_ret
    refine ⟨⟨h.provider, h.attempts, h.skipped⟩, ?_, fun hd => nomatch hd⟩
    simp [labelNames]
  apply tidy_seq (hushed_records records_observeBudget)
  intro _
  refine tidy_seq (does_tellIf trivial) (fun _ => ?_)
  apply tidy_seq (hushed_records records_settleDone)
  intro settled
  exact hwrite settled _

theorem tidy_acceptWhole {body : Body} :
    (acceptWhole k route st body : M (FlowOf Loop)).Ensures (Tidy st.event) := by
  unfold acceptWhole
  split
  · refine tidy_call trivial (fun _ => ?_)
    apply tidy_seq (hushed_records records_settleUnknown)
    intro settled
    exact tidy_fail ⟨rfl, rfl, rfl⟩
  · refine tidy_seq (does_tellIf trivial) (fun _ => ?_)
    refine tidy_call trivial (fun _ => ?_)
    split
    · apply tidy_seq (hushed_records records_settleUnknown)
      intro settled
      exact tidy_fail ⟨rfl, rfl, rfl⟩
    · split
      · exact tidy_emptyAnswer ⟨rfl, rfl, rfl⟩
      · exact tidy_answer ⟨rfl, rfl, rfl⟩

theorem tidy_rateLimited {b : Bool} {delay : Int} :
    (rateLimited k route (goBack b) st delay).Ensures (Tidy st.event) := by
  have hleave : (rateLimited.leaveAlone route st delay : M (FlowOf Loop)).Ensures (Tidy st.event) := by
    unfold rateLimited.leaveAlone
    split
    all_goals exact tidy_call trivial (fun _ => tidy_ret (kept_refl st))
  refine tidy_call trivial (fun _ => ?_)
  cases b with
  | false => exact hleave
  | true =>
    simp only [goBack, if_true]
    split
    · refine tidy_call trivial (fun _ => tidy_call trivial (fun _ => ?_))
      refine tidy_call trivial (fun passed => ?_)
      split
      · exact tidy_ret ⟨rfl, rfl, rfl⟩
      · exact tidy_fail ⟨rfl, rfl, rfl⟩
    · exact hleave

theorem tidy_refused {b : Bool} {status : Int} {header : String} {body : Body} :
    (refused k route (goBack b) st status header body).Ensures (Tidy st.event) := by
  have hnext : ∀ f : Fault, (pure (.next { st with event := { st.event with fault := f.string } }) :
      M (FlowOf Loop)).Ensures (Tidy st.event) :=
    fun f => tidy_ret ⟨rfl, rfl, rfl⟩
  have hkept : ∀ {f : Fault} {flow : FlowOf Loop} {log : List (Effect.Event Op Ans)},
      Tidy { st.event with fault := f.string } flow log → Tidy st.event flow log :=
    fun h => ⟨⟨h.kept.provider, h.kept.attempts, h.kept.skipped⟩, h.neutral, h.hushed⟩
  refine tidy_call trivial (fun t => ?_)
  dsimp only
  split
  · refine tidy_call trivial (fun _ => tidy_call trivial (fun _ => ?_))
    exact tidy_call trivial (fun _ => hnext _)
  · exact tidy_rateLimited.mono (fun _ _ => hkept)
  · refine tidy_call trivial (fun _ => tidy_call trivial (fun _ => ?_))
    split
    · exact tidy_call trivial (fun _ => hnext _)
    · exact hnext _
  · refine tidy_call trivial (fun _ => tidy_call trivial (fun _ => ?_))
    exact hnext _
  · unfold terminal
    split
    all_goals exact tidy_call trivial (fun _ => tidy_fail ⟨rfl, rfl, rfl⟩)

theorem tidy_adapterFailed : (adapterFailed route st : M (FlowOf Loop)).Ensures (Tidy st.event) :=
  tidy_call trivial (fun _ => tidy_fail ⟨rfl, rfl, rfl⟩)

theorem hushed_upstream {sent : Chat} {pc : ProviderConfig} :
    (upstream k.srv sent route pc).Does Hushed (fun _ => True) :=
  (does_upstream (fun _ => trivial)).mono (fun _ _ => trivial)

theorem hushed_dropTemperature : (dropTemperature k route).Does Hushed (fun _ => True) :=
  (does_dropTemperature (fun _ => trivial) trivial).mono (fun _ _ => trivial)

variable {n : Int}

theorem stamping_send {u : Upstream} {o : Outcome} (h : isAccept ⟨.send u, o⟩ = false) :
    Stamping route n [⟨.send u, o⟩] := by
  constructor
  · rfl
  · intro g _ name _
    simp [stamp, h, isMark, Slate.note]
  · intro g hg
    exact hg

/-- A provider that has accepted the request is named. -/
theorem stamping_accepted {u : Upstream} {header contentType : String} {body : Body} :
    Stamping route n [⟨.send u, .response 200 header contentType body⟩,
      ⟨.tell (.markHealthy route.provider), ()⟩,
      ⟨.setHeader "X-Switchboard-Provider" route.provider, ()⟩,
      ⟨.setHeader "X-Switchboard-Attempts" (Strings.itoa n), ()⟩] := by
  constructor
  · rfl
  · intro g _ name hname
    simp only [labelNames, List.mem_cons, List.not_mem_nil, or_false] at hname
    rcases hname with rfl | rfl | rfl <;> simp [stamp, isAccept, isMark, Slate.note]
  · intro g hg
    exact hg

theorem stamping_marked {s : String} :
    Stamping route n [⟨.ask (.worthCaching s), true⟩, ⟨.tell (.count .promptCacheMarked 1), ()⟩,
      ⟨.setHeader "X-Switchboard-Prompt-Cache" "system", ()⟩] := by
  constructor
  · rfl
  · intro g _ name hname
    simp only [labelNames, List.mem_cons, List.not_mem_nil, or_false] at hname
    rcases hname with rfl | rfl | rfl <;> simp [stamp, isAccept, isMark, Slate.note]
  · intro g hg
    exact hg

theorem stamping_unmarked {s : String} : Stamping route n [⟨.ask (.worthCaching s), false⟩] := by
  constructor
  · rfl
  · intro g _ name _
    simp [stamp, isAccept, isMark, Slate.note]
  · intro g hg
    exact hg

theorem Stamping.append {xs ys : List (Effect.Event Op Ans)} (h : Stamping route n xs)
    (h' : Stamping route n ys) : Stamping route n (xs ++ ys) := by
  constructor
  · rw [risen_append, h.uncounted, h'.uncounted, Int.add_zero]
  · intro g hg name hname
    rw [after_append, h'.labels _ (h.unshown g hg) name hname]
    exact stamp_append (h.labels g hg name hname)
  · intro g hg
    rw [after_append]
    exact h'.unshown _ (h.unshown g hg)

theorem stamping_prepare :
    (prepare k route).Ensures (fun _ log => Stamping route n log) := by
  refine hushed_dropTemperature.ensures.bind (fun sent pre hpre => ?_)
  have hpre : Stamping route n pre := stamping_of_hushed hpre.2
  unfold markCached
  split
  · refine Prog.ensures_call (fun worth => ?_)
    cases worth with
    | true =>
      refine Prog.ensures_call (fun _ => Prog.ensures_call (fun _ => Prog.ensures_ret ?_))
      exact hpre.append stamping_marked
    | false => exact Prog.ensures_ret (hpre.append stamping_unmarked)
  · refine Prog.ensures_ret ?_
    rwa [List.append_nil]

theorem stamped_bind {β : Type} {p : M β} {f : β → M (FlowOf Loop)}
    (hp : p.Ensures (fun _ log => Stamping route n log))
    (hf : ∀ b, (f b).Ensures (Stamped route n event)) : (p >>= f).Ensures (Stamped route n event) :=
  hp.bind (fun b _ hb => (hf b).mono (fun _ _ h => h.after hb))

theorem stamped_hushed {β : Type} {p : M β} {f : β → M (FlowOf Loop)}
    (hp : p.Does Hushed (fun _ => True)) (hf : ∀ b, (f b).Ensures (Stamped route n event)) :
    (p >>= f).Ensures (Stamped route n event) :=
  stamped_bind (hp.ensures.mono (fun _ _ h => stamping_of_hushed h.2)) hf

theorem stamped_tidy {p : M (FlowOf Loop)} (h : p.Ensures (Tidy event)) :
    p.Ensures (Stamped route n event) :=
  h.mono (fun _ _ ht => ht.stamped)

/-- The rest of an attempt, with the answer it goes by. -/
theorem stamped_conclude {b : Bool} {u : Upstream} {o : Outcome} (hn : st.event.attempts = n) :
    (conclude k route (goBack b) st o).Ensures
      (fun flow log => Stamped route n st.event flow (⟨.send u, o⟩ :: log)) := by
  have hrefused : isAccept ⟨.send u, o⟩ = false → ∀ {p : M (FlowOf Loop)}, p.Ensures (Tidy st.event) →
      p.Ensures (fun flow log => Stamped route n st.event flow (⟨.send u, o⟩ :: log)) := by
    intro h p hp
    exact hp.mono (fun flow log ht => ht.stamped.after (stamping_send h))
  cases o with
  | failed =>
    apply hrefused rfl
    refine tidy_call trivial (fun gone => ?_)
    split
    all_goals
      refine tidy_call trivial (fun _ => ?_)
      apply tidy_seq (hushed_records records_settleUnknown)
      intro settled
      exact tidy_fail ⟨rfl, rfl, rfl⟩
  | response status header contentType body =>
    simp only [conclude]
    split
    · rename_i hstatus
      exact hrefused (by simpa [isAccept] using hstatus) tidy_refused
    · rename_i hstatus
      obtain rfl : status = 200 := not_not.mp hstatus
      have haccepted : ∀ {p : M (FlowOf Loop)}, p.Ensures (Tidy st.event) →
          p.Ensures (fun flow log => Stamped route n st.event flow
            (⟨.send u, .response 200 header contentType body⟩ ::
              ⟨.tell (.markHealthy route.provider), ()⟩ ::
              ⟨.setHeader "X-Switchboard-Provider" route.provider, ()⟩ ::
              ⟨.setHeader "X-Switchboard-Attempts" (Strings.itoa st.event.attempts), ()⟩ :: log)) := by
        intro p hp
        rw [hn]
        exact hp.mono (fun flow log ht => ht.stamped.after stamping_accepted)
      refine Prog.ensures_call (fun _ => Prog.ensures_call (fun _ => Prog.ensures_call (fun _ => ?_)))
      split
      · exact haccepted tidy_acceptStream
      · exact haccepted tidy_acceptWhole

theorem not_accept_of_refuses {sent : Chat} {u : Upstream} {o : Outcome}
    (h : refusesTemperature sent o = true) : isAccept ⟨.send u, o⟩ = false := by
  cases o with
  | failed => cases h
  | response status header contentType body =>
    simp only [refusesTemperature, Bool.and_eq_true, decide_eq_true_eq] at h
    simp only [isAccept, beq_eq_false_iff_ne]
    omega

theorem stamped_exchange {b : Bool} {pc : ProviderConfig} {sent : Chat} (hn : st.event.attempts = n) :
    (exchange k route pc (goBack b) st sent).Ensures (Stamped route n st.event) := by
  unfold exchange
  apply stamped_hushed hushed_upstream
  intro u
  cases u with
  | none => exact stamped_tidy tidy_adapterFailed
  | some u =>
    refine Prog.ensures_call (fun res => ?_)
    split
    · rename_i hres
      -- the refused call leaves no stamp, so what the second call ensures is all there is
      refine Prog.Ensures.mono (Q := Stamped route n st.event) ?_
        (fun flow log h => h.after (stamping_send (not_accept_of_refuses hres)))
      refine stamped_hushed (Prog.does_op trivial) (fun _ => ?_)
      refine stamped_hushed (Prog.does_op trivial) (fun _ => ?_)
      apply stamped_hushed hushed_upstream
      intro v
      cases v with
      | none => exact stamped_tidy tidy_adapterFailed
      | some v => exact Prog.ensures_call (fun res => stamped_conclude hn)
    · exact stamped_conclude hn

/-- An attempt that may go on has said and set nothing; one that may not is over. -/
structure Paced (st : Loop) (o : Option (FlowOf Loop)) (log : List (Effect.Event Op Ans)) : Prop where
  clear : o = none → ∀ e ∈ log, Hushed e.op
  ended : ∀ flow, o = some flow → Tidy st.event flow log

theorem paced_call {o : Op} {f : Ans o → M (Option (FlowOf Loop))} (ho : Hushed o)
    (hf : ∀ x, (f x).Ensures (Paced st)) : (Prog.call o >>= f).Ensures (Paced st) := by
  refine Prog.ensures_call (fun x => (hf x).mono (fun flow log h => ⟨fun hnone => ?_, fun flow hflow => ?_⟩))
  · exact List.forall_mem_cons.mpr ⟨ho, h.clear hnone⟩
  · have hone : ∀ e ∈ [(⟨o, x⟩ : Effect.Event Op Ans)], Hushed e.op :=
      List.forall_mem_singleton.mpr ho
    exact (h.ended flow hflow).after hone

theorem paced_pace : (pace route st : M (Option (FlowOf Loop))).Ensures (Paced st) := by
  have hclear : (pure none : M (Option (FlowOf Loop))).Ensures (Paced st) :=
    Prog.ensures_ret ⟨by simp, by simp⟩
  have hover : ∀ {p : M (FlowOf Loop)}, p.Ensures (Tidy st.event) →
      (some <$> p : M (Option (FlowOf Loop))).Ensures (Paced st) := by
    intro p hp log o hrun
    obtain ⟨flow, hflow, rfl⟩ := hrun.of_map
    refine ⟨by simp, fun flow' he => ?_⟩
    obtain rfl := Option.some.inj he
    exact hp log flow hflow
  unfold pace
  split
  · exact hclear
  refine paced_call trivial (fun granted => ?_)
  split
  · refine paced_call trivial (fun _ => paced_call trivial (fun t => ?_))
    refine paced_call trivial (fun passed => ?_)
    split
    · exact hclear
    · exact paced_call trivial (fun _ => hover (tidy_fail ⟨rfl, rfl, rfl⟩))
  · exact paced_call trivial (fun _ => hover (p := pure _) (tidy_ret ⟨rfl, rfl, rfl⟩))

/-- What a turn does that is not skipped: nothing, or an attempt. -/
inductive Attempted (route : Route) (st : Loop) (flow : FlowOf Loop)
    (log : List (Effect.Event Op Ans)) : Prop
  | idle (h : Tidy st.event flow log)
  | tried (h : Stamped route (st.event.attempts + 1) (st.attempting route).event flow log)

theorem Attempted.after {flow : FlowOf Loop} {pre log : List (Effect.Event Op Ans)}
    (h : Attempted route st flow log) (hpre : ∀ e ∈ pre, Hushed e.op) :
    Attempted route st flow (pre ++ log) := by
  cases h with
  | idle h => exact .idle (h.after hpre)
  | tried h => exact .tried (h.after (stamping_of_hushed hpre))

theorem attempted_attempt {b : Bool} {pc : ProviderConfig} :
    (attempt k route pc (goBack b) st).Ensures (Attempted route st) := by
  have hidle : ∀ {flow : FlowOf Loop}, Kept st.event flow →
      (pure flow : M (FlowOf Loop)).Ensures (Attempted route st) :=
    fun h => (tidy_ret h).mono (fun _ _ => .idle)
  unfold attempt
  split
  · exact hidle ⟨rfl, rfl, rfl⟩
  split
  · exact hidle ⟨rfl, rfl, rfl⟩
  refine Prog.ensures_call (fun allowed => ?_)
  have hone : ∀ e ∈ [(⟨.allow route.provider, allowed⟩ : Effect.Event Op Ans)], Hushed e.op :=
    List.forall_mem_singleton.mpr trivial
  split
  · refine paced_pace.bind (fun flow pre hpre => ?_)
    cases flow with
    | some flow =>
      apply Prog.ensures_ret
      rw [List.append_nil]
      exact .idle ((hpre.ended flow rfl).after hone)
    | none =>
      have hrest : (prepare k route >>= fun sent =>
          exchange k route pc (goBack b) (st.attempting route) sent).Ensures
          (Stamped route (st.event.attempts + 1) (st.attempting route).event) :=
        stamped_bind stamping_prepare (fun sent => stamped_exchange rfl)
      refine hrest.mono (fun flow log h => ?_)
      exact (Attempted.tried (h.after (stamping_of_hushed (hpre.clear rfl)))).after hone
  · exact (hidle ⟨rfl, rfl, rfl⟩).mono (fun _ _ h => h.after hone)

/-- One turn of the loop. -/
inductive Turn (k : Inference) (route : Route) (skip : Bool) (st : Loop) (flow : FlowOf Loop)
    (log : List (Effect.Event Op Ans)) : Prop
  | unknown (h : k.srv.c.providers.lookup route.provider = none) (hlog : log = [])
      (hflow : flow = .next st)
  | passed (hskip : skip = true) (hlog : log = [⟨.tell (.count .budgetSkip 1), ()⟩])
      (hflow : flow = .next { st with event := { st.event with
        budgetSkipped := st.event.budgetSkipped ++ [route.provider ++ ":" ++ route.model] } })
  | attempted (hskip : skip = false) (h : Attempted route st flow log)

theorem turn_cases (b skip : Bool) :
    (turn k route skip (fun _ => goBack b) st).Ensures (Turn k route skip st) := by
  unfold turn
  split
  · rename_i hnone
    exact Prog.ensures_ret (.unknown hnone rfl rfl)
  · split
    · rename_i hskip
      exact Prog.ensures_call (fun _ => Prog.ensures_ret (.passed hskip rfl rfl))
    · rename_i hskip
      have hskip : skip = false := by simpa using hskip
      exact attempted_attempt.mono (fun _ _ h => .attempted hskip h)

theorem ensures_exhausted :
    (exhausted k st).Ensures (fun e log => Kept st.event (.done e) ∧ ∀ e ∈ log, Neutral e.op) := by
  have hfail : ∀ (status : Int) (msg : String),
      (fail st.event false status msg).Does Neutral (fun e => Kept st.event (.done e)) := by
    intro status msg
    apply Prog.does_seq ((framed_problem status msg).relax neutral_of_framed)
    intro _
    exact Prog.does_ret ⟨rfl, rfl, rfl⟩
  apply Prog.Does.ensures
  unfold exhausted
  refine Prog.does_call (by simp [labelNames]) (fun _ => ?_)
  split
  · exact Prog.does_call trivial (fun _ => hfail _ _)
  · exact hfail _ _

end

end Switchboard.Proofs.Labels
