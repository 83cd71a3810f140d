import Switchboard.Proofs.Watch

namespace Switchboard.Proofs.Tally
open Text Gateway
open Watch (EmptyAnswer assembled)
open Effect (Monitor Prog)

/-- A stream followed from where its finish has been stated or not: whether it comes to a
valid end, and the usage it states on the way. -/
def follow (provider : String) : Bool → TokenUsage → List Bytes → Bool × TokenUsage
  | _, u, [] => (false, u)
  | finished, u, b :: bs =>
    if b = ascii "[DONE]" then (decide (provider = "openai") && finished, u)
    else
      let r := normalize provider b true
      let stated := if r.n.input ≠ 0 ∨ r.n.output ≠ 0 then usageOf r.n else u
      let ended := finished || r.n.finish != ""
      if r.err ≠ none then (false, u)
      else if finished = true ∧ r.n.text ≠ "" then (false, stated)
      else if r.done = true ∧ provider ≠ "openai" then (ended, stated)
      else follow provider ended stated bs

/-- A stream without any text whose last frame, the one that ends it, also says that the
length was reached. -/
def heldBack (provider : String) : List Bytes → Bool
  | [] => false
  | b :: bs =>
    let r := normalize provider b true
    if b = ascii "[DONE]" ∨ r.err ≠ none ∨ r.n.text ≠ "" then false
    else if r.n.finish ≠ "" ∧ r.n.finish ≠ "length" then false
    else if r.done = true ∧ provider ≠ "openai" then r.n.finish == "length"
    else heldBack provider bs

section
variable (lib : Lib)

/-- An answer that comes to a valid end. -/
def ValidAnswer (u : Upstream) (contentType : String) (body : Body) : Prop :=
  if u.sent.stream = true then
    ∃ b, streamBody lib u.route contentType body = some b ∧
      (follow u.route.provider false {} (readSSE b).1).1 = true
  else ∃ data, wholeBody body = some data ∧ (normalize u.route.provider data false).err = none

/-- A streamed answer that is held back to its end. -/
def HeldBack (u : Upstream) (contentType : String) (body : Body) : Prop :=
  u.sent.stream = true ∧ ∃ b, streamBody lib u.route contentType body = some b ∧
    heldBack u.route.provider (readSSE b).1 = true

/-- A response that was accepted as a stream and is not said to be one. -/
def Mistyped : Option (Upstream × Outcome) → Prop
  | some (u, .response status _ contentType body) =>
    status = 200 ∧ u.sent.stream = true ∧ streamBody lib u.route contentType body = none
  | _ => False

/-- `used` is the usage that the exchange reported. A stream is read to its end unless
something could not be written to the client. -/
def Reports (lost : Bool) (used : TokenUsage) : Option (Upstream × Outcome) → Prop
  | some (u, .response status _ contentType body) =>
    if status ≠ 200 then used = {}
    else if u.sent.stream = true then
      match streamBody lib u.route contentType body with
      | none => used = {}
      | some b => ∃ n, used = (follow u.route.provider false {} ((readSSE b).1.take n)).2 ∧
          (lost = false → n = (readSSE b).1.length)
    else
      match wholeBody body with
      | none => used = {}
      | some data => used = usageOf (normalize u.route.provider data false).n
  | _ => used = {}

/-- The usage that answers which were read whole leave on the event of their request, the
newest first. -/
def owed : List (Upstream × Outcome) → TokenUsage
  | [] => {}
  | (_, .failed) :: xs => owed xs
  | (u, .response status _ _ body) :: xs =>
    if status = 200 ∧ u.sent.stream = false then
      match wholeBody body with
      | some data => usageOf (normalize u.route.provider data false).n
      | none => owed xs
    else owed xs

/-- An answer that the usage of the event is taken from: one that was read whole, or a stream
with something in it. -/
def Sets : Option (Upstream × Outcome) → Prop
  | some (u, .response status _ contentType body) => status = 200 ∧
      if u.sent.stream = true then ¬ EmptyAnswer lib u contentType body
      else (wholeBody body).isSome = true
  | _ => False

/-- A stream that is held back to its end. -/
def Withheld : Option (Upstream × Outcome) → Prop
  | some (u, .response status _ contentType body) => status = 200 ∧ HeldBack lib u contentType body
  | _ => False

/-- The usage on an event, by the last answer and everything that was exchanged. -/
structure Charged (lost : Bool) (used : TokenUsage) (last : Option (Upstream × Outcome))
    (sent : List (Upstream × Outcome)) : Prop where
  set : Sets lib last → Reports lib lost used last
  left : ¬ Sets lib last → ¬ Withheld lib last → used = owed sent

/-- An outcome that counts against the provider. `lost` is whether something could not be
written to the client, `gone` what was found when it was asked whether the client is. -/
def Blames (gone : Option Bool) (lost : Bool) : Upstream × Outcome → Prop
  | (_, .failed) => gone = some false
  | (u, .response status _ contentType body) =>
    status = 503 ∨
      status ≠ 200 ∧ classify status (body.bytes.take 65536) = .terminal ∧ callersFault status = false ∨
      status = 200 ∧ (¬ ValidAnswer lib u contentType body ∨ lost = true ∨
        HeldBack lib u contentType body)

/-- An outcome that counts in favour of the provider. -/
def Credits : Upstream × Outcome → Prop
  | (_, .failed) => False
  | (u, .response status _ contentType body) => status = 200 ∧ ValidAnswer lib u contentType body

end

/-- What is assumed of the answers a request gets: that the clock does not go back, that
nobody else is using the breakers, that random identifiers are what they should be, and
something about the policies. `silent` asks for a program that reports no event. -/
structure Assume where
  steady : Prop := False
  alone : Prop := False
  hex : Prop := False
  policy : Policy → Prop := fun _ => True
  silent : Prop := False

def HexText (n : Nat) (s : String) : Prop :=
  s.toList.length = n ∧ ∀ c ∈ s.toList, c ∈ "0123456789abcdef".toList

/-- What a request has seen and shown: its last look at the clock and at the policies,
the providers that could be tried, what became of its key, its exchanges with the newest
first, what has gone to its client, the events emitted, and what has been measured of
routes. -/
structure Sheet where
  time : Option Int := none
  policy : Option Policy := none
  could : Bool := false
  sure : List String := []
  prior : Option (Except StoreError (Option IdemEntry)) := none
  sent : List (Upstream × Outcome) := []
  gone : Option Bool := none
  shown : Option Int := none
  said : Bytes := []
  lost : Bool := false
  emits : List Event := []
  measured : List (String × String × TokenUsage) := []

namespace Sheet

/-- Something goes to the client, with `status` if it is the first. -/
def speak (g : Sheet) (status : Int) (b : Bytes) (ok : Bool) : Sheet :=
  { g with shown := some (g.shown.getD status), said := g.said ++ b, lost := g.lost || !ok }

@[simp] theorem speak_speak (g : Sheet) (status status' : Int) (b b' : Bytes) (ok ok' : Bool) :
    (g.speak status b ok).speak status' b' ok' = g.speak status (b ++ b') (ok && ok') := by
  cases ok <;> simp [speak, List.append_assoc]

/-- Somebody's call of `provider`'s breaker: nothing is sure about it any more. -/
def touch (g : Sheet) (provider : String) : Sheet :=
  { g with sure := g.sure.filter (· ≠ provider) }

end Sheet

/-- What the server is told about a request as a whole. -/
@[reducible, simp] def closing : Tell → Bool
  | .emit _ | .observeRoute _ _ _ _ _ => true
  | .releaseSlot | .count _ _ | .budgetObserve _ _ _ | .share _ _ | .temperatureObserve _
  | .markHealthy _ | .markUnhealthy _ | .capture _ => false

/-- The rules of the account. -/
def account (srv : Server) (A : Assume) : Monitor Op Ans Sheet where
  may
    | g, .now, t => A.steady → 0 < t ∧ ∀ last, g.time = some last → last ≤ t
    | _, .randomID n, s => A.hex → HexText (2 * n) s
    | _, .currentPolicy, p => ∀ q ∈ p, A.policy q
    | g, .allow p, x => A.alone → p ∈ g.sure → x = true
    | _, _, _ => True
  ok
    | g, .settle p (.result true) =>
      ∃ x, g.sent.head? = some x ∧ x.1.route.provider = p ∧ Blames srv.lib g.gone g.lost x
    | g, .settle p (.result false) =>
      ∃ x, g.sent.head? = some x ∧ x.1.route.provider = p ∧ Credits srv.lib x
    | g, .finishKey _ e => e.state = .done → ∃ x, g.sent.head? = some x ∧ Credits srv.lib x
    | _, .tell o => closing o = true → ¬ A.silent
    | _, _ => True
  next
    | g, .now, t => { g with time := some t }
    | g, .currentPolicy, p => { g with policy := p }
    | g, .wouldAllow p, true => { g with could := true, sure := p :: g.sure }
    | g, .allow p, true => g.touch p
    | g, .settle p _, _ => g.touch p
    | g, .beginKey _ _, r => { g with prior := some r }
    | g, .send u, o => { g with sent := (u, o) :: g.sent, gone := none }
    | g, .ask .clientGone, b => { g with gone := some b }
    | g, .tell (.emit e), _ => { g with emits := g.emits ++ [e] }
    | g, .tell (.observeRoute p m _ _ u), _ => { g with measured := g.measured ++ [(p, m, u)] }
    | g, .writeHeader status, _ => g.speak status [] true
    | g, .write b, ok => g.speak 200 b ok
    | g, _, _ => g

section
variable {srv : Server} {A : Assume} {g : Sheet}

@[simp] theorem wp_now {Q : Int → Sheet → Prop} :
    (account srv A).wp Q now g ↔
      ∀ t, (A.steady → 0 < t ∧ ∀ last, g.time = some last → last ≤ t) →
        Q t { g with time := some t } :=
  ⟨fun h => h.2, fun h => ⟨trivial, h⟩⟩

@[simp] theorem wp_randomID {n : Nat} {Q : String → Sheet → Prop} :
    (account srv A).wp Q (randomID n) g ↔ ∀ s, (A.hex → HexText (2 * n) s) → Q s g :=
  ⟨fun h => h.2, fun h => ⟨trivial, h⟩⟩

@[simp] theorem wp_currentPolicy {Q : Option Policy → Sheet → Prop} :
    (account srv A).wp Q currentPolicy g ↔
      ∀ p, (∀ q ∈ p, A.policy q) → Q p { g with policy := p } :=
  ⟨fun h => h.2, fun h => ⟨trivial, h⟩⟩

/-- A question, unless it is whether the client is gone. -/
theorem wp_ask {o : Ask} {Q : Bool → Sheet → Prop} (ho : o ≠ .clientGone) :
    (account srv A).wp Q (ask o) g ↔ ∀ x, Q x g := by
  refine Monitor.wp_neutral trivial (fun _ => trivial) (fun x => ?_)
  cases o with
  | clientGone => exact absurd rfl ho
  | _ => rfl

@[simp] theorem wp_clientGone {Q : Bool → Sheet → Prop} :
    (account srv A).wp Q (ask .clientGone) g ↔ ∀ x, Q x { g with gone := some x } :=
  Monitor.wp_known trivial (fun _ => trivial)

/-- Something the server is told before the request is over. -/
@[simp] theorem wp_tell {o : Tell} {Q : Unit → Sheet → Prop} (ho : closing o = false) :
    (account srv A).wp Q (tell o) g ↔ Q () g := by
  have hnext : ∀ x : Unit, (account srv A).next g (.tell o) x = g := by
    intro x
    cases o with
    | emit e => cases ho
    | observeRoute p m status ms u => cases ho
    | _ => rfl
  have hok : (account srv A).ok g (.tell o) := by
    intro hc
    rw [ho] at hc
    cases hc
  exact (Monitor.wp_neutral hok (fun _ => trivial) hnext).trans Unique.forall_iff

@[simp] theorem wp_tellIf {b : Bool} {o : Tell} {Q : Unit → Sheet → Prop} (ho : closing o = false) :
    (account srv A).wp Q (tellIf b o) g ↔ Q () g := by
  cases b with
  | true => exact wp_tell ho
  | false => exact Iff.rfl

theorem wp_emit {e : Event} {Q : Unit → Sheet → Prop} (hs : ¬ A.silent) :
    (account srv A).wp Q (tell (.emit e)) g ↔ Q () { g with emits := g.emits ++ [e] } :=
  (Monitor.wp_known (fun _ => hs) (fun _ => trivial)).trans Unique.forall_iff

theorem wp_observeRoute {p m : String} {status ms : Int} {u : TokenUsage} {Q : Unit → Sheet → Prop}
    (hs : ¬ A.silent) :
    (account srv A).wp Q (tell (.observeRoute p m status ms u)) g ↔
      Q () { g with measured := g.measured ++ [(p, m, u)] } :=
  (Monitor.wp_known (fun _ => hs) (fun _ => trivial)).trans Unique.forall_iff

@[simp] theorem wp_setHeader {name value : String} {Q : Unit → Sheet → Prop} :
    (account srv A).wp Q (setHeader name value) g ↔ Q () g :=
  (Monitor.wp_neutral trivial (fun _ => trivial) (fun _ => rfl)).trans Unique.forall_iff

@[simp] theorem wp_delHeader {name : String} {Q : Unit → Sheet → Prop} :
    (account srv A).wp Q (delHeader name) g ↔ Q () g :=
  (Monitor.wp_neutral trivial (fun _ => trivial) (fun _ => rfl)).trans Unique.forall_iff

@[simp] theorem wp_writeHeader {status : Int} {Q : Unit → Sheet → Prop} :
    (account srv A).wp Q (writeHeader status) g ↔ Q () (g.speak status [] true) :=
  (Monitor.wp_known trivial (fun _ => trivial)).trans Unique.forall_iff

@[simp] theorem wp_write {b : Bytes} {Q : Bool → Sheet → Prop} :
    (account srv A).wp Q (write b) g ↔ ∀ ok, Q ok (g.speak 200 b ok) :=
  Monitor.wp_known trivial (fun _ => trivial)

@[simp] theorem wp_wouldAllow {p : String} {Q : Bool → Sheet → Prop} :
    (account srv A).wp Q (wouldAllow p) g ↔
      Q false g ∧ Q true { g with could := true, sure := p :: g.sure } :=
  (Monitor.wp_known trivial (fun _ => trivial)).trans Bool.forall_bool

@[simp] theorem wp_allow {p : String} {Q : Bool → Sheet → Prop} :
    (account srv A).wp Q (allow p) g ↔
      ((A.alone → p ∉ g.sure) → Q false g) ∧ Q true (g.touch p) := by
  constructor
  · intro h
    exact ⟨fun hp => h.2 false (fun ha hs => absurd hs (hp ha)), h.2 true (fun _ _ => rfl)⟩
  · intro h
    refine ⟨trivial, fun x hx => ?_⟩
    cases x with
    | true => exact h.2
    | false => exact h.1 (fun ha hs => nomatch hx ha hs)

@[simp] theorem wp_settle {p : String} {s : Settlement} {Q : Unit → Sheet → Prop} :
    (account srv A).wp Q (settle p s) g ↔ (account srv A).ok g (.settle p s) ∧ Q () (g.touch p) :=
  (Monitor.wp_guarded (fun _ => trivial)).trans (and_congr_right (fun _ => Unique.forall_iff))

@[simp] theorem wp_send {u : Upstream} {Q : Outcome → Sheet → Prop} :
    (account srv A).wp Q (send u) g ↔ ∀ o, Q o { g with sent := (u, o) :: g.sent, gone := none } :=
  Monitor.wp_known trivial (fun _ => trivial)

@[simp] theorem wp_beginKey {k : String} {b : Bytes}
    {Q : Except StoreError (Option IdemEntry) → Sheet → Prop} :
    (account srv A).wp Q (beginKey k b) g ↔ ∀ r, Q r { g with prior := some r } :=
  Monitor.wp_known trivial (fun _ => trivial)

@[simp] theorem wp_finishKey {k : String} {e : IdemEntry} {Q : Unit → Sheet → Prop} :
    (account srv A).wp Q (finishKey k e) g ↔
      (e.state = .done → ∃ x, g.sent.head? = some x ∧ Credits srv.lib x) ∧ Q () g :=
  (Monitor.wp_guarded (fun _ => trivial)).trans (and_congr_right (fun _ => Unique.forall_iff))

@[simp] theorem wp_releaseKey {k : String} {Q : Unit → Sheet → Prop} :
    (account srv A).wp Q (releaseKey k) g ↔ Q () g :=
  (Monitor.wp_neutral trivial (fun _ => trivial) (fun _ => rfl)).trans Unique.forall_iff

@[simp] theorem wp_map {f : α → β} {p : M α} {Q : β → Sheet → Prop} :
    (account srv A).wp Q (f <$> p) g ↔ (account srv A).wp (fun a g => Q (f a) g) p g := by
  simp [Prog.map_def]

theorem wp_problem {status : Int} {msg : String} {Q : Unit → Sheet → Prop} :
    (account srv A).wp Q (problem status msg) g ↔
      ∀ ok, Q () (g.speak status (GoJson.marshal (problemJson status msg)) ok) := by
  simp [problem]

theorem wp_fail {event : Event} {settled : Bool} {status : Int} {msg : String}
    {Q : Ended → Sheet → Prop} :
    (account srv A).wp Q (fail event settled status msg) g ↔
      ∀ ok, Q { event := { event with status := status }, settled := settled }
        (g.speak status (GoJson.marshal (problemJson status msg)) ok) := by
  simp [fail, wp_problem]

end

end Switchboard.Proofs.Tally
