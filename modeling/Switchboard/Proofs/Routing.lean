import Switchboard.Proofs.Breakers
import Switchboard.Proofs.PolicyCache

namespace Switchboard.Proofs.Routing
open Text Gateway Watch Steps NoReplay Verify
open Effect (Monitor Prog Machine Conf)

/-- A policy that was signed for this store and has the shape that routing relies on. -/
structure Vouched (ed : Bytes → Bytes → Bytes → Bool) (s : PolicyStore) (p : Policy) : Prop where
  signed : ∃ raw e key sig, Carries ed s raw p e key sig
  tenant : p.tenant = s.tenant
  version : 1 ≤ p.version ∧ p.version ≤ 9007199254740991
  issued : 1 ≤ p.issuedAt
  lifetime : p.expiresAt ≤ p.issuedAt + 604800
  count : 1 ≤ p.routes.length ∧ p.routes.length ≤ 4
  distinct : (p.routes.map Route.provider).Nodup
  known : ∀ r ∈ p.routes, r.provider ∈ ["openai", "anthropic", "gemini", "bedrock"]
  models : ∀ r ∈ p.routes, identifier r.model = true

section
variable {ed : Bytes → Bytes → Bytes → Bool} {s t t' : PolicyStore} {p : Policy} {raw : Bytes}
  {now : Int}

theorem vouched_of_verify {allow : Bool} (h : s.verify ed raw now allow = .ok p) :
    Vouched ed s p := by
  obtain ⟨⟨e, key, sig, hcarries⟩, hdec, hcon, hroutes⟩ := verify_ok_iff.mp h
  have hsize := (sized_of_strictJSON hdec).bounds
  obtain ⟨-, ht, -, hv, hi, -, hl, hr⟩ := constraintsHold_iff.mp hcon
  obtain ⟨hlegible, hdistinct⟩ := validRoutes_iff.mp hroutes
  have hlife : p.expiresAt ≤ p.issuedAt + 604800 := by
    have hspan := hl.2
    unfold wrap64 at hspan
    omega
  exact ⟨⟨raw, e, key, sig, hcarries⟩, ht, hv, hi.1, hlife, hr, hdistinct,
    fun r hr => knownProvider_iff.mp (hlegible r hr).1.1, fun r hr => (hlegible r hr).1.2⟩

/-- The store `t` trusts what `s` does, and what it has in force is vouched for. -/
structure Trusted (ed : Bytes → Bytes → Bytes → Bool) (s t : PolicyStore) : Prop where
  tenant : t.tenant = s.tenant
  keys : t.keys = s.keys
  current : ∀ p, t.current = some p → Vouched ed s p

theorem Trusted.verify {allow : Bool} (h : Trusted ed s t) (hv : t.verify ed raw now allow = .ok p) :
    Vouched ed s p := by
  have hp := vouched_of_verify hv
  obtain ⟨raw', e, key, sig, hc⟩ := hp.signed
  have hpinned : s.keys e.keyID = some key := h.keys ▸ hc.pinned
  have hcarries : Carries ed s raw' p e key sig :=
    ⟨hc.short, hc.decodes, hpinned, hc.named, hc.payload, hc.signature, hc.signed⟩
  exact { hp with signed := ⟨raw', e, key, sig, hcarries⟩, tenant := hp.tenant.trans h.tenant }

theorem Trusted.install (h : Trusted ed s t) (hp : Vouched ed s p) :
    Trusted ed s (t.install p raw) := by
  refine ⟨h.tenant, h.keys, fun q hq => ?_⟩
  cases hq
  exact hp

theorem Trusted.restore (h : Trusted ed s t) (hr : t.restore ed raw now = .ok t') :
    Trusted ed s t' := by
  unfold PolicyStore.restore at hr
  split at hr
  · cases hr
  · rename_i p hp
    cases hr
    exact h.install (h.verify hp)

theorem Trusted.apply {persist written : Bool} (h : Trusted ed s t)
    (hr : t.apply ed raw now persist written = .ok t') : Trusted ed s t' := by
  unfold PolicyStore.apply at hr
  split at hr
  · cases hr
  rename_i p hp
  split at hr
  · cases hr
  · cases hr
    exact h
  · split at hr
    · cases hr
    · cases hr
      exact h.install (h.verify hp)

theorem current_policy {q : Policy} (h : t.Current now = some q) :
    t.current = some q ∧ now < q.expiresAt := by
  unfold PolicyStore.Current at h
  split at h
  · cases h
  · rename_i p hp
    split at h
    · cases h
    · rename_i hlive
      cases h
      exact ⟨hp, by omega⟩

end

/-- The state that routing needs: a trusted store, and a breaker for every provider that a
policy can name. -/
structure Sound (ed : Bytes → Bytes → Bytes → Bool) (s : PolicyStore) (w : World) : Prop where
  policies : Trusted ed s w.policies
  circuits : ∀ q ∈ ["openai", "anthropic", "gemini", "bedrock"], (w.circuits.lookup q).isSome = true

section
variable {ed : Bytes → Bytes → Bytes → Bool} {s : PolicyStore} {w w' : World}

theorem Sound.change {c : Change} (h : Sound ed s w) (hc : w.change ed c = some w') :
    Sound ed s w' := by
  have haged := change_aged hc
  refine ⟨?_, by rw [haged.circuits]; exact h.circuits⟩
  rcases haged.policies with hp | ⟨raw, persist, written, hp⟩ | ⟨raw, hp⟩
  · rw [hp]
    exact h.policies
  · exact h.policies.apply hp
  · exact h.policies.restore hp

theorem Sound.perform {srv : Server} {o : Op} {x : Ans o} {ch : Chance} (h : Sound ed s w)
    (hs : w.perform srv o ch = some (x, w')) : Sound ed s w' := by
  have hkept := perform_kept hs
  refine ⟨hkept.policies ▸ h.policies, fun q hq => ?_⟩
  rw [hkept.circuits q, Option.isSome_map]
  exact h.circuits q hq

theorem Sound.current (h : Sound ed s w) {p : Policy} (hp : w.current = some p) :
    Vouched ed s p ∧ w.now / second < p.expiresAt := by
  obtain ⟨hcurrent, hlive⟩ := current_policy hp
  exact ⟨h.policies.current p hcurrent, hlive⟩

/-- The providers that a request learns of are known. -/
theorem Sound.may {srv : Server} {o : Op} {x : Ans o} {ch : Chance} (h : Sound ed s w)
    (hs : w.perform srv o ch = some (x, w')) (g : Ghost) :
    (watch srv (fun q => q ∈ ["openai", "anthropic", "gemini", "bedrock"])).may g o x := by
  have hknown : ∀ p, w.current = some p → ∀ r ∈ p.routes,
      r.provider ∈ ["openai", "anthropic", "gemini", "bedrock"] :=
    fun p hp => (h.current hp).1.known
  cases o with
  | currentPolicy =>
    cases hs
    exact hknown
  | awaitPolicy =>
    cases ch with
    | flag b =>
      cases b with
      | false =>
        cases hs
        intro q hq
        cases hq
      | true => cases hs
    | quiet =>
      obtain ⟨p, hp, he⟩ := Option.map_eq_some_iff.mp hs
      cases he
      intro q hq
      cases hq
      exact hknown p hp
    | _ => cases hs
  | _ => trivial

end

/-- The provider whose breaker an operation looks up. -/
def circuitOf : Op → Option String
  | .wouldAllow p => some p
  | .allow p => some p
  | .settle p _ => some p
  | _ => none

/-- Whatever arrives or is restored, and whatever requests and checks run meanwhile: the
policy in force was signed for this store, has not expired and has the shape that routing
relies on, and every breaker that is looked up is there. -/
theorem only_verified_policies_route [DecidableEq ι] (ed25519Verify : Bytes → Bytes → Bytes → Bool)
    (srv : Server) (tasks : ι → Task) (w : World) (hempty : w.policies.current = none)
    (hcircuits : w.circuits = newCircuits) (c : Conf Op Ans World ι (Option Event))
    (hr : (machine ed25519Verify srv).Reaches Machine.anyMove
      (.start w (fun i => (tasks i).run srv)) c) :
    (∀ p, c.state.current = some p →
      Vouched ed25519Verify w.policies p ∧ c.state.now / second < p.expiresAt) ∧
    ∀ i o k q, c.prog i = .op o k → circuitOf o = some q →
      (c.state.circuits.lookup q).isSome = true := by
  have hinit : Sound ed25519Verify w.policies w := by
    refine ⟨⟨rfl, rfl, by simp [hempty]⟩, ?_⟩
    rw [hcircuits]
    decide
  obtain ⟨hsound, hwp⟩ := Machine.invariant
    (G := watch srv (fun q => q ∈ ["openai", "anthropic", "gemini", "bedrock"]))
    (fun i => run_spec srv _ (tasks i)) (I := fun w' _ => Sound ed25519Verify w.policies w') hinit
    (fun d s' _ h he _ => by
      obtain ⟨change, hc⟩ := he
      exact h.change hc)
    (fun d i o x s' _ h _ hs _ => by
      obtain ⟨ch, hs⟩ := hs
      exact ⟨h.may hs _, h.perform hs⟩) hr
  refine ⟨fun p hp => hsound.current hp, fun i o k q hp ho => ?_⟩
  have hok := hwp i
  rw [hp] at hok
  apply hsound.circuits q
  cases o with
  | wouldAllow p =>
    cases ho
    exact hok.1
  | allow p =>
    cases ho
    exact hok.1.1
  | settle p how =>
    cases ho
    exact hok.1
  | _ => cases ho

/-- A server that has just started, with nothing in force. -/
def waiting : World := World.new plainConfig (1500 * second) Signer.acmeStore ∅

/-- The same server with a policy in force. -/
def supplied : World where
  __ := waiting
  policies := waiting.policies.install (PolicyCache.acmePolicy 1) (PolicyCache.acmeEnvelope 1)

theorem apply_first {ed : Bytes → Bytes → Bytes → Bool} {w : World} {raw : Bytes} {p : Policy}
    (hempty : w.policies.current = none)
    (hv : w.policies.verify ed raw (w.now / second) false = .ok p) :
    w.change ed (.apply raw true true) =
      some { w with policies := w.policies.install p raw } := by
  have hnew : w.policies.supersedes p = .ok true := by simp [PolicyStore.supersedes, hempty]
  simp [World.change, PolicyStore.apply, hv, hnew]

theorem apply_acme :
    waiting.change Signer.lengths.verify (.apply (PolicyCache.acmeEnvelope 1) true true) =
      some supplied := by
  refine apply_first rfl ?_
  have hnow : waiting.now / second = 1500 := Int.mul_ediv_cancel 1500 (by decide)
  rw [hnow]
  exact PolicyCache.accepts_acme (by decide) _ _ rfl rfl

theorem supplied_current : supplied.current = some (PolicyCache.acmePolicy 1) := by
  have hnow : supplied.now / second = 1500 := Int.mul_ediv_cancel 1500 (by decide)
  rw [World.current, hnow]
  rfl

theorem only_verified_policies_route_applied :
    ∃ c : Conf Op Ans World Unit (Option Event),
      c.state.current = some (PolicyCache.acmePolicy 1) ∧
      Vouched Signer.lengths.verify Signer.acmeStore (PolicyCache.acmePolicy 1) ∧
      c.state.now / second < (PolicyCache.acmePolicy 1).expiresAt := by
  have hreached := Relation.ReflTransGen.single (Machine.Move.env
    (P := Machine.anyMove) (.start waiting (fun _ : Unit => Task.probeProviders.run plainServer))
    supplied (env_of_change plainServer apply_acme) trivial)
  exact ⟨_, supplied_current, (only_verified_policies_route Signer.lengths.verify plainServer
    (fun _ => .probeProviders) waiting rfl rfl _ hreached).1 _ supplied_current⟩

end Switchboard.Proofs.Routing
