import Switchboard.Gateway.Probe
import Switchboard.Proofs.Entry

namespace Switchboard.Proofs.Watch
open Text Gateway Entry
open Effect (Monitor Prog)

/-- The whole text of a stream and its finish reasons, if it comes to its end. -/
def assembled (provider : String) : List Bytes → Option (String × List String)
  | [] => none
  | b :: bs =>
    if b = ascii "[DONE]" then if provider = "openai" then some ("", []) else none
    else
      let r := normalize provider b true
      let reason := if r.n.finish = "" then [] else [r.n.finish]
      if r.err ≠ none then none
      else if r.done = true ∧ provider ≠ "openai" then some (r.n.text, reason)
      else (assembled provider bs).map (fun a => (r.n.text ++ a.1, reason ++ a.2))

section
variable (lib : Lib)

/-- An answer that can be read to its end. -/
def CompleteAnswer (u : Upstream) (contentType : String) (body : Body) : Prop :=
  if u.sent.stream = true then
    ∃ b, streamBody lib u.route contentType body = some b ∧
      (assembled u.route.provider (readSSE b).1).isSome
  else ∃ data, wholeBody body = some data ∧ (normalize u.route.provider data false).err = none

/-- A complete answer without any text that was cut short by its length. -/
def EmptyAnswer (u : Upstream) (contentType : String) (body : Body) : Prop :=
  if u.sent.stream = true then
    ∃ b reasons, streamBody lib u.route contentType body = some b ∧
      assembled u.route.provider (readSSE b).1 = some ("", reasons) ∧ reasons ≠ [] ∧
      ∀ f ∈ reasons, f = "length"
  else
    ∃ data, wholeBody body = some data ∧ (normalize u.route.provider data false).err = none ∧
      (normalize u.route.provider data false).n.finish = "length" ∧
      (normalize u.route.provider data false).n.text = ""

/-- An outcome after which nothing has been generated, or nothing that could be shown. -/
def Replayable (u : Upstream) : Outcome → Prop
  | .failed => False
  | .response status _ contentType body =>
    status ∈ [429, 503, 401, 403, 404] ∨
      callersFault status = true ∧ accountExhausted (body.bytes.take 65536) = true ∨
      callersFault status = true ∧ rejectsTemperature status (body.bytes.take 65536) = true ∧
        u.sent.temperature.isSome = true ∨
      status = 200 ∧ EmptyAnswer lib u contentType body

/-- An outcome after which the key of a request is given back: an answer that is not an
acceptance, or one without content. -/
def Releasable (u : Upstream) : Outcome → Prop
  | .failed => False
  | .response status _ contentType body => status ≠ 200 ∨ EmptyAnswer lib u contentType body

theorem Replayable.releasable {u : Upstream} {o : Outcome} (h : Replayable lib u o) :
    Releasable lib u o := by
  cases o with
  | failed => exact h
  | response status ra ct body =>
    rcases h with hs | ⟨hs, -⟩ | ⟨hs, -⟩ | ⟨-, he⟩
    · left
      rintro rfl
      exact absurd hs (by decide)
    · left
      rintro rfl
      exact absurd hs (by decide)
    · left
      rintro rfl
      exact absurd hs (by decide)
    · exact .inr he

end

/-- An exchange of which nobody can say that the provider did not take it on: there was no
response, or an acceptance. -/
def Undertaken : Outcome → Prop
  | .failed => True
  | .response status _ _ _ => status = 200

/-- What has become of a request's idempotency key. `stored` is whether the claim
reached the disk. -/
inductive Claim where
  | none
  | opened (stored : Bool) (body : Bytes)
  | refused (status : Int)
  | replayed (e : IdemEntry)
  | released (stored : Bool)
  | recorded (stored : Bool) (body : Bytes) (e : IdemEntry)

/-- What is kept in mind about one request, or about the check of the providers: its key,
the provider whose breaker let it in, the last exchange, whether the client has been
written to, and its claim. -/
structure Ghost where
  check : Bool := false
  key : String := ""
  held : Option String := none
  last : Option (Upstream × Outcome) := none
  wrote : Bool := false
  claim : Claim := .none

namespace Ghost

def Open (g : Ghost) : Prop := ∃ stored body, g.claim = .opened stored body

def settle (g : Ghost) (provider : String) : Ghost :=
  { g with held := if g.held = some provider then none else g.held }

def begun (g : Ghost) (body : Bytes) : Except StoreError (Option IdemEntry) → Ghost
  | .ok none => { g with claim := .opened true body }
  | .ok (some e) => { g with claim := .replayed e }
  | .error .mismatch => { g with claim := .refused 422 }
  | .error .conflict => { g with claim := .refused 409 }
  | .error _ => { g with claim := .opened false body }

def finished (g : Ghost) (e : IdemEntry) : Ghost :=
  match g.claim with
  | .opened stored body => { g with claim := .recorded stored body e }
  | _ => g

def given (g : Ghost) : Ghost :=
  match g.claim with
  | .opened stored _ => { g with claim := .released stored }
  | _ => g

end Ghost

/-- A request to a provider. -/
def sends : Effect.Event Op Ans → Bool
  | ⟨.send _, _⟩ => true
  | _ => false

/-- Something for the client: a status or bytes. -/
def writes : Effect.Event Op Ans → Bool
  | ⟨.writeHeader _, _⟩ => true
  | ⟨.write _, _⟩ => true
  | _ => false

/-- An operation on the idempotency store. -/
def keyed : Effect.Event Op Ans → Bool
  | ⟨.beginKey _ _, _⟩ => true
  | ⟨.finishKey _ _, _⟩ => true
  | ⟨.releaseKey _, _⟩ => true
  | _ => false

/-- The rules every request keeps, provided that the policies it is given name providers
of `known` only. -/
def watch (srv : Server) (known : String → Prop) : Monitor Op Ans Ghost where
  may
    | _, .currentPolicy, p => ∀ q ∈ p, ∀ r ∈ q.routes, known r.provider
    | _, .awaitPolicy, p => ∀ q ∈ p, ∀ r ∈ q.routes, known r.provider
    | _, _, _ => True
  ok
    | _, .wouldAllow p => known p
    | g, .allow p => known p ∧ g.held = none
    | _, .settle p _ => known p
    | g, .beginKey k _ => k = g.key ∧ g.key ≠ "" ∧ g.claim = .none
    | g, .finishKey k e => k = g.key ∧ Storable e ∧
        (e.state = .unknown ∨ e.state = .done ∧ e.status = 200) ∧ ∃ stored body,
          g.claim = .opened stored body ∧ e.bodyHash = IdemStore.hashBody srv.lib.sha256 body ∧
          ∃ l, g.last = some l ∧ Undertaken l.2
    | g, .releaseKey k => k = g.key ∧ g.Open ∧
        ∀ l, g.last = some l → Releasable srv.lib l.1 l.2
    | g, .send _ => g.check = true ∨ (g.key ≠ "" → g.Open) ∧ g.wrote = false ∧
        ∀ l, g.last = some l → Replayable srv.lib l.1 l.2
    | _, _ => True
  next
    | g, .allow p, true => { g with held := some p }
    | g, .settle p _, _ => g.settle p
    | g, .beginKey _ body, r => g.begun body r
    | g, .finishKey _ e, _ => g.finished e
    | g, .releaseKey _, _ => g.given
    | g, .writeHeader _, _ => { g with wrote := true }
    | g, .write _, _ => { g with wrote := true }
    | g, .send u, o => { g with last := some (u, o) }
    | g, _, _ => g

/-- The rules without any condition on the policies. -/
abbrev rules (srv : Server) : Monitor Op Ans Ghost := watch srv (fun _ => True)

theorem rules_may (srv : Server) (g : Ghost) (o : Op) (x : Ans o) : (rules srv).may g o x := by
  cases o with
  | currentPolicy => exact fun _ _ _ _ => trivial
  | awaitPolicy => exact fun _ _ _ _ => trivial
  | _ => trivial

/-- What one operation leaves of the bookkeeping as it was. -/
structure Frame (g : Ghost) (e : Effect.Event Op Ans) (g' : Ghost) : Prop where
  check : g'.check = g.check
  key : g'.key = g.key
  last : sends e = false → g'.last = g.last
  wrote : g'.wrote = (g.wrote || writes e)
  claim : keyed e = false → g'.claim = g.claim
  held : (∀ p, e.op ≠ .allow p) → (∀ p s, e.op ≠ .settle p s) → g'.held = g.held

theorem next_frame (srv : Server) (known : String → Prop) (g : Ghost) (o : Op) (x : Ans o) :
    Frame g ⟨o, x⟩ ((watch srv known).next g o x) := by
  have hquiet : ∀ b : Bool, b = (b || false) := fun b => (Bool.or_false b).symm
  cases o with
  | allow p =>
    cases x <;> exact ⟨rfl, rfl, fun _ => rfl, hquiet _, fun _ => rfl, fun h => absurd rfl (h p)⟩
  | settle p s =>
    exact ⟨rfl, rfl, fun _ => rfl, hquiet _, fun _ => rfl, fun _ h => absurd rfl (h p s)⟩
  | beginKey k b =>
    rcases x with e | prior
    · cases e <;>
        exact ⟨rfl, rfl, fun _ => rfl, hquiet _, (fun h => nomatch h), fun _ _ => rfl⟩
    · cases prior <;>
        exact ⟨rfl, rfl, fun _ => rfl, hquiet _, (fun h => nomatch h), fun _ _ => rfl⟩
  | finishKey k e =>
    simp only [watch, Ghost.finished]
    split <;> exact ⟨rfl, rfl, fun _ => rfl, hquiet _, (fun h => nomatch h), fun _ _ => rfl⟩
  | releaseKey k =>
    simp only [watch, Ghost.given]
    split <;> exact ⟨rfl, rfl, fun _ => rfl, hquiet _, (fun h => nomatch h), fun _ _ => rfl⟩
  | writeHeader status =>
    exact ⟨rfl, rfl, fun _ => rfl, (Bool.or_true _).symm, fun _ => rfl, fun _ _ => rfl⟩
  | write b => exact ⟨rfl, rfl, fun _ => rfl, (Bool.or_true _).symm, fun _ => rfl, fun _ _ => rfl⟩
  | send u => exact ⟨rfl, rfl, (fun h => nomatch h), hquiet _, fun _ => rfl, fun _ _ => rfl⟩
  | _ => exact ⟨rfl, rfl, fun _ => rfl, hquiet _, fun _ => rfl, fun _ _ => rfl⟩

section
variable {srv : Server} {known : String → Prop} {g : Ghost}

theorem after_check (log : List (Effect.Event Op Ans)) (g : Ghost) :
    ((watch srv known).after g log).check = g.check := by
  induction log generalizing g with
  | nil => rfl
  | cons e log ih => exact (ih _).trans (next_frame srv known g e.op e.ans).check

theorem after_key (log : List (Effect.Event Op Ans)) (g : Ghost) :
    ((watch srv known).after g log).key = g.key := by
  induction log generalizing g with
  | nil => rfl
  | cons e log ih => exact (ih _).trans (next_frame srv known g e.op e.ans).key

theorem after_last {log : List (Effect.Event Op Ans)} (h : ∀ e ∈ log, sends e = false) (g : Ghost) :
    ((watch srv known).after g log).last = g.last := by
  induction log generalizing g with
  | nil => rfl
  | cons e log ih =>
    have he := (next_frame srv known g e.op e.ans).last (h e List.mem_cons_self)
    exact (ih (fun d hd => h d (List.mem_cons_of_mem _ hd)) _).trans he

theorem after_wrote (log : List (Effect.Event Op Ans)) (g : Ghost) :
    ((watch srv known).after g log).wrote = (g.wrote || log.any writes) := by
  induction log generalizing g with
  | nil => simp
  | cons e log ih =>
    have he := (next_frame srv known g e.op e.ans).wrote
    rw [Monitor.after_cons, ih, he, List.any_cons, Bool.or_assoc]

/-- A request that no breaker has let in holds none. -/
theorem after_held {log : List (Effect.Event Op Ans)}
    (h : ∀ p, (⟨.allow p, true⟩ : Effect.Event Op Ans) ∉ log) (g : Ghost) (hg : g.held = none) :
    ((watch srv known).after g log).held = none := by
  induction log generalizing g with
  | nil => exact hg
  | cons e log ih =>
    refine ih (fun p hp => h p (List.mem_cons_of_mem _ hp)) _ ?_
    obtain ⟨o, x⟩ := e
    cases o with
    | allow p =>
      cases x with
      | true => exact absurd List.mem_cons_self (h p)
      | false => exact hg
    | settle p s => simp [watch, Ghost.settle, hg]
    | _ => exact ((next_frame srv known g _ _).held (by simp) (by simp)).trans hg

@[simp] theorem wp_now {Q : Int → Ghost → Prop} : (watch srv known).wp Q now g ↔ ∀ x, Q x g :=
  Monitor.wp_neutral trivial (fun _ => trivial) (fun _ => rfl)

@[simp] theorem wp_ask {o : Ask} {Q : Bool → Ghost → Prop} :
    (watch srv known).wp Q (ask o) g ↔ ∀ x, Q x g :=
  Monitor.wp_neutral trivial (fun _ => trivial) (fun _ => rfl)

@[simp] theorem wp_tell {o : Tell} {Q : Unit → Ghost → Prop} :
    (watch srv known).wp Q (tell o) g ↔ Q () g :=
  (Monitor.wp_neutral trivial (fun _ => trivial) (fun _ => rfl)).trans Unique.forall_iff

@[simp] theorem wp_setHeader {name value : String} {Q : Unit → Ghost → Prop} :
    (watch srv known).wp Q (setHeader name value) g ↔ Q () g :=
  (Monitor.wp_neutral trivial (fun _ => trivial) (fun _ => rfl)).trans Unique.forall_iff

@[simp] theorem wp_delHeader {name : String} {Q : Unit → Ghost → Prop} :
    (watch srv known).wp Q (delHeader name) g ↔ Q () g :=
  (Monitor.wp_neutral trivial (fun _ => trivial) (fun _ => rfl)).trans Unique.forall_iff

@[simp] theorem wp_currentPolicy {Q : Option Policy → Ghost → Prop} :
    (watch srv known).wp Q currentPolicy g ↔ ∀ p, (∀ q ∈ p, ∀ r ∈ q.routes, known r.provider) → Q p g :=
  ⟨fun h => h.2, fun h => ⟨trivial, h⟩⟩

@[simp] theorem wp_awaitPolicy {Q : Option Policy → Ghost → Prop} :
    (watch srv known).wp Q awaitPolicy g ↔ ∀ p, (∀ q ∈ p, ∀ r ∈ q.routes, known r.provider) → Q p g :=
  ⟨fun h => h.2, fun h => ⟨trivial, h⟩⟩

@[simp] theorem wp_writeHeader {status : Int} {Q : Unit → Ghost → Prop} :
    (watch srv known).wp Q (writeHeader status) g ↔ Q () { g with wrote := true } :=
  (Monitor.wp_known trivial (fun _ => trivial)).trans Unique.forall_iff

@[simp] theorem wp_write {b : Bytes} {Q : Bool → Ghost → Prop} :
    (watch srv known).wp Q (write b) g ↔ ∀ x, Q x { g with wrote := true } :=
  Monitor.wp_known trivial (fun _ => trivial)

@[simp] theorem wp_allow {p : String} {Q : Bool → Ghost → Prop} :
    (watch srv known).wp Q (allow p) g ↔
      (known p ∧ g.held = none) ∧ Q false g ∧ Q true { g with held := some p } :=
  (Monitor.wp_guarded (fun _ => trivial)).trans (and_congr_right (fun _ => Bool.forall_bool))

@[simp] theorem wp_settle {p : String} {s : Settlement} {Q : Unit → Ghost → Prop} :
    (watch srv known).wp Q (settle p s) g ↔ known p ∧ Q () (g.settle p) :=
  (Monitor.wp_guarded (fun _ => trivial)).trans (and_congr_right (fun _ => Unique.forall_iff))

@[simp] theorem wp_send {u : Upstream} {Q : Outcome → Ghost → Prop} :
    (watch srv known).wp Q (send u) g ↔
      (watch srv known).ok g (.send u) ∧ ∀ o, Q o { g with last := some (u, o) } :=
  Monitor.wp_guarded (fun _ => trivial)

@[simp] theorem wp_beginKey {k : String} {b : Bytes}
    {Q : Except StoreError (Option IdemEntry) → Ghost → Prop} :
    (watch srv known).wp Q (beginKey k b) g ↔
      (watch srv known).ok g (.beginKey k b) ∧ ∀ r, Q r (g.begun b r) :=
  Monitor.wp_guarded (fun _ => trivial)

@[simp] theorem wp_finishKey {k : String} {e : IdemEntry} {Q : Unit → Ghost → Prop} :
    (watch srv known).wp Q (finishKey k e) g ↔
      (watch srv known).ok g (.finishKey k e) ∧ Q () (g.finished e) :=
  (Monitor.wp_guarded (fun _ => trivial)).trans (and_congr_right (fun _ => Unique.forall_iff))

@[simp] theorem wp_releaseKey {k : String} {Q : Unit → Ghost → Prop} :
    (watch srv known).wp Q (releaseKey k) g ↔
      (watch srv known).ok g (.releaseKey k) ∧ Q () g.given :=
  (Monitor.wp_guarded (fun _ => trivial)).trans (and_congr_right (fun _ => Unique.forall_iff))

end

end Switchboard.Proofs.Watch
