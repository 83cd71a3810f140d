import Switchboard.Proofs.Honest
import Switchboard.Proofs.NoReplay
import Switchboard.Proofs.Report

namespace Switchboard.Proofs.Ledger
open Text Gateway Tally
open Watch (EmptyAnswer Replayable)
open NoReplay
open Effect (Monitor Prog Machine Conf)

/-- The status that the client gets with this operation if it is the first to send it
something: bytes without a status come with 200. -/
def statusOf : Effect.Event Op Ans → Option Int
  | ⟨.writeHeader status, _⟩ => some status
  | ⟨.write _, _⟩ => some 200
  | _ => none

def exchangeOf : Effect.Event Op Ans → Option (Upstream × Outcome)
  | ⟨.send u, o⟩ => some (u, o)
  | _ => none

def emitOf : Effect.Event Op Ans → Option Event
  | ⟨.tell (.emit e), _⟩ => some e
  | _ => none

def measureOf : Effect.Event Op Ans → Option (String × String × TokenUsage)
  | ⟨.tell (.observeRoute p m _ _ u), _⟩ => some (p, m, u)
  | _ => none

/-- Something that could not be sent to the client. -/
def losesWrite : Effect.Event Op Ans → Bool
  | ⟨.write _, ok⟩ => !ok
  | _ => false

def priorOf : Effect.Event Op Ans → Option (Except StoreError (Option IdemEntry))
  | ⟨.beginKey _ _, r⟩ => some r
  | _ => none

/-- The status of the response that a request's client received. -/
def shown (log : List (Effect.Event Op Ans)) : Option Int := log.findSome? statusOf

/-- The requests to providers, with how they ended. -/
def exchanges (log : List (Effect.Event Op Ans)) : List (Upstream × Outcome) :=
  log.filterMap exchangeOf

def emits (log : List (Effect.Event Op Ans)) : List Event := log.filterMap emitOf

/-- What has been measured of routes: provider, model and usage. -/
def measured (log : List (Effect.Event Op Ans)) : List (String × String × TokenUsage) :=
  log.filterMap measureOf

theorem shown_cons (e : Effect.Event Op Ans) (log : List (Effect.Event Op Ans)) :
    shown (e :: log) = (statusOf e).or (shown log) := by
  rw [shown, List.findSome?_cons]
  cases statusOf e <;> rfl

theorem exchanges_cons (e : Effect.Event Op Ans) (log : List (Effect.Event Op Ans)) :
    exchanges (e :: log) = (exchangeOf e).toList ++ exchanges log := by
  rw [exchanges, List.filterMap_cons]
  cases exchangeOf e <;> rfl

theorem emits_cons (e : Effect.Event Op Ans) (log : List (Effect.Event Op Ans)) :
    emits (e :: log) = (emitOf e).toList ++ emits log := by
  rw [emits, List.filterMap_cons]
  cases emitOf e <;> rfl

/-- What one operation enters into the account. -/
structure Entered (g : Sheet) (e : Effect.Event Op Ans) (g' : Sheet) : Prop where
  shown : g'.shown = g.shown.or (statusOf e)
  sent : g'.sent = (exchangeOf e).toList ++ g.sent
  emits : g'.emits = g.emits ++ (emitOf e).toList
  measured : g'.measured = g.measured ++ (measureOf e).toList
  lost : g'.lost = (g.lost || losesWrite e)
  prior : g'.prior = (priorOf e).or g.prior

section
variable {srv : Server} {A : Assume} {g : Sheet}

/-- An operation that only moves what is not accounted for here. -/
theorem Entered.other {e : Effect.Event Op Ans} {g' : Sheet} (hs : statusOf e = none)
    (hx : exchangeOf e = none) (he : emitOf e = none) (hm : measureOf e = none)
    (hl : losesWrite e = false) (hp : priorOf e = none)
    (hsame : g'.shown = g.shown ∧ g'.sent = g.sent ∧ g'.emits = g.emits ∧ g'.measured = g.measured ∧
      g'.lost = g.lost ∧ g'.prior = g.prior) : Entered g e g' := by
  obtain ⟨h1, h2, h3, h4, h5, h6⟩ := hsame
  exact ⟨by simp [h1, hs], by simp [h2, hx], by simp [h3, he], by simp [h4, hm], by simp [h5, hl],
    by simp [h6, hp]⟩

theorem entered (g : Sheet) (o : Op) (x : Ans o) : Entered g ⟨o, x⟩ ((account srv A).next g o x) := by
  have hor : ∀ s : Option Int, s = s.or none := fun s => (Option.or_none).symm
  have happend : ∀ {α : Type} (xs : List α), xs = xs ++ [] := fun xs => (List.append_nil xs).symm
  have hfalse : ∀ b : Bool, b = (b || false) := fun b => (Bool.or_false b).symm
  have hspeak : ∀ status : Int, some (g.shown.getD status) = g.shown.or (some status) := by
    intro status
    cases g.shown <;> rfl
  cases o with
  | tell o =>
    cases o with
    | emit e => exact ⟨hor _, rfl, rfl, happend _, hfalse _, rfl⟩
    | observeRoute p m status ms u => exact ⟨hor _, rfl, happend _, rfl, hfalse _, rfl⟩
    | _ => exact .other rfl rfl rfl rfl rfl rfl ⟨rfl, rfl, rfl, rfl, rfl, rfl⟩
  | ask o => cases o <;> exact .other rfl rfl rfl rfl rfl rfl ⟨rfl, rfl, rfl, rfl, rfl, rfl⟩
  | wouldAllow p => cases x <;> exact .other rfl rfl rfl rfl rfl rfl ⟨rfl, rfl, rfl, rfl, rfl, rfl⟩
  | allow p => cases x <;> exact .other rfl rfl rfl rfl rfl rfl ⟨rfl, rfl, rfl, rfl, rfl, rfl⟩
  | writeHeader status => exact ⟨hspeak status, rfl, happend _, happend _, rfl, rfl⟩
  | write b => exact ⟨hspeak 200, rfl, happend _, happend _, rfl, rfl⟩
  | send u => exact ⟨hor _, rfl, happend _, happend _, hfalse _, rfl⟩
  | beginKey k body => exact ⟨hor _, rfl, happend _, happend _, hfalse _, rfl⟩
  | _ => exact .other rfl rfl rfl rfl rfl rfl ⟨rfl, rfl, rfl, rfl, rfl, rfl⟩

theorem after_shown (log : List (Effect.Event Op Ans)) (g : Sheet) :
    ((account srv A).after g log).shown = g.shown.or (shown log) := by
  induction log generalizing g with
  | nil => simp [shown]
  | cons e log ih =>
    rw [Monitor.after_cons, ih, (entered g e.op e.ans).shown, Option.or_assoc, shown_cons]

theorem after_sent (log : List (Effect.Event Op Ans)) (g : Sheet) :
    ((account srv A).after g log).sent = (exchanges log).reverse ++ g.sent := by
  induction log generalizing g with
  | nil => rfl
  | cons e log ih =>
    rw [Monitor.after_cons, ih, (entered g e.op e.ans).sent, exchanges_cons, List.reverse_append,
      List.append_assoc]
    cases exchangeOf e <;> rfl

theorem after_emits (log : List (Effect.Event Op Ans)) (g : Sheet) :
    ((account srv A).after g log).emits = g.emits ++ emits log := by
  induction log generalizing g with
  | nil => simp [emits]
  | cons e log ih =>
    rw [Monitor.after_cons, ih, (entered g e.op e.ans).emits, emits_cons, List.append_assoc]

/-- The bytes that an operation has for the client. -/
def bytesOf : Effect.Event Op Ans → Bytes
  | ⟨.write b, _⟩ => b
  | _ => []

theorem next_said (g : Sheet) (o : Op) (x : Ans o) :
    ((account srv A).next g o x).said = g.said ++ bytesOf ⟨o, x⟩ := by
  have hsame : g.said = g.said ++ [] := (List.append_nil _).symm
  cases o with
  | write b => rfl
  | writeHeader status => rfl
  | ask o => cases o <;> exact hsame
  | tell o => cases o <;> exact hsame
  | wouldAllow p => cases x <;> exact hsame
  | allow p => cases x <;> exact hsame
  | _ => exact hsame

theorem after_said (log : List (Effect.Event Op Ans)) (g : Sheet) :
    ((account srv A).after g log).said = g.said ++ log.flatMap bytesOf := by
  induction log generalizing g with
  | nil => simp
  | cons e log ih => rw [Monitor.after_cons, ih, next_said, List.flatMap_cons, List.append_assoc]

/-- What a request was told about its key is something it was told in its log. -/
theorem after_prior {log : List (Effect.Event Op Ans)} {g : Sheet}
    {r : Except StoreError (Option IdemEntry)} (h : ((account srv A).after g log).prior = some r) :
    g.prior = some r ∨ ∃ k body, (⟨.beginKey k body, r⟩ : Effect.Event Op Ans) ∈ log := by
  induction log generalizing g with
  | nil => exact .inl h
  | cons e log ih =>
    rcases ih h with hnext | ⟨k, body, hmem⟩
    · rw [(entered g e.op e.ans).prior] at hnext
      obtain ⟨o, x⟩ := e
      cases o with
      | beginKey k body =>
        cases hnext
        exact .inr ⟨k, body, List.mem_cons_self⟩
      | _ => exact .inl hnext
    · exact .inr ⟨k, body, List.mem_cons_of_mem _ hmem⟩

theorem wp_awaitPolicy {Q : Option Policy → Sheet → Prop} :
    (account srv A).wp Q awaitPolicy g ↔ ∀ p, Q p g :=
  Monitor.wp_neutral trivial (fun _ => trivial) (fun _ => rfl)

/-- The check of the providers records no outcome. -/
theorem probeRoutes_account (routes : List Route) (seen : List String) (g : Sheet) :
    (account srv A).wp (fun _ _ => True) (probeRoutes srv seen routes) g := by
  induction routes generalizing seen g with
  | nil => trivial
  | cons route routes ih =>
    unfold probeRoutes
    split
    · exact ih seen g
    split
    · exact ih _ g
    · rename_i pc _
      have hone : (account srv A).wp (fun _ _ => True) (probeOne srv route pc) g := by
        unfold probeOne
        rw [Monitor.wp_bind_iff]
        refine wp_upstream (k := ⟨srv, "", "", 0, [], pingChat⟩) trivial ?_
        intro u _ _
        dsimp only
        rw [Monitor.wp_bind_iff, wp_send]
        intro o
        cases o with
        | failed => trivial
        | response status retryAfter contentType body =>
          dsimp only
          repeat' split
          all_goals trivial
      refine Monitor.wp_seq hone (fun reason g' _ => ?_)
      split
      · rw [Monitor.wp_bind_iff, wp_tell (by rfl), Monitor.wp_bind_iff, wp_tell (by rfl),
          Monitor.wp_bind_iff, wp_settle]
        exact ⟨trivial, ih _ _⟩
      · exact ih _ _

theorem task_account (srv : Server) (t : Task) :
    (account srv {}).wp (fun _ _ => True) (t.run srv) {} := by
  cases t with
  | chat r =>
    exact wp_map.mpr (Monitor.wp_mono (chat_spec srv {} (fun ha => ha.elim) (fun hs => hs) r)
      (fun _ _ _ => trivial))
  | probeProviders =>
    refine wp_map.mpr ?_
    unfold probeProviders
    rw [Monitor.wp_bind_iff, wp_awaitPolicy]
    intro p
    cases p with
    | none => trivial
    | some p => exact probeRoutes_account p.routes [] _

theorem account_may (srv : Server) (g : Sheet) (o : Op) (x : Ans o) : (account srv {}).may g o x := by
  cases o with
  | now => exact fun hs => hs.elim
  | randomID n => exact fun hs => hs.elim
  | currentPolicy => exact fun _ _ => trivial
  | allow p => exact fun hs => hs.elim
  | _ => trivial

/-- What is known of every request that has returned. -/
theorem emitted_of_run {srv : Server} {r : Request} {log : List (Effect.Event Op Ans)} {event : Event}
    (h : (chat srv r).Run log (.ret event)) :
    Emitted {} srv event ((account srv {}).after {} log) :=
  Monitor.wp_run h (chat_spec srv {} (fun ha => ha.elim) (fun hs => hs) r)
    (Monitor.relied_of_may (account_may srv) _ _)

/-- The last exchange of a request. -/
theorem after_last (log : List (Effect.Event Op Ans)) :
    ((account srv A).after {} log).sent.head? = (exchanges log).getLast? := by
  rw [after_sent, List.append_nil, List.head?_reverse]

end

/-- A task that has returned an event is a request that has. -/
theorem chat_of_task {srv : Server} {t : Task} {log : List (Effect.Event Op Ans)} {event : Event}
    (h : (t.run srv).Run log (.ret (some event))) : ∃ r, (chat srv r).Run log (.ret event) := by
  cases t with
  | chat r =>
    obtain ⟨e, hrun, he⟩ := h.of_map
    cases he
    exact ⟨r, hrun⟩
  | probeProviders =>
    obtain ⟨-, -, he⟩ := h.of_map
    cases he

end Switchboard.Proofs.Ledger
