import Switchboard.Data.Weight
import Switchboard.Proofs.Routes

namespace Switchboard.Proofs.Folding
open Text Gateway Routes
open Effect (Prog Machine Conf)

/-- The distributions of a route. -/
inductive Part where
  | latency
  | tokens (τ : TokenType)
deriving DecidableEq, Repr

/-- The figures of a distribution. -/
inductive Figure where
  | count
  | sum
  | bucket (i : Nat)
deriving DecidableEq, Repr

def Part.dist (r : RouteLatency) : Part → Dist
  | latency => r.latency
  | tokens τ => τ.dist r

def Part.bounds : Part → List Int
  | latency => latencyBounds
  | tokens _ => tokenBounds

/-- The values that a request adds to a distribution. -/
def Part.values (cs : List RouteObservation) : Part → List Int
  | latency => cs.map (·.ms)
  | tokens τ => tokensOf τ cs

def Figure.read (d : Dist) : Figure → Int
  | count => d.count
  | sum => d.sum
  | bucket i => d.buckets.getD i 0

/-- What one value adds to a figure. -/
def Figure.gain (bounds : List Int) (v : Int) : Figure → Int
  | count => 1
  | sum => v
  | bucket i => if (bounds[i]?).any (fun b => decide (v ≤ b)) then 1 else 0

theorem dist_aggregate (π : Part) (cs : List RouteObservation) :
    π.dist (aggregate cs) = distOf π.bounds (π.values cs) := by
  cases π with
  | latency => exact aggregate_latency cs
  | tokens τ => exact aggregate_tokens τ cs

theorem read_distOf (φ : Figure) (bounds vs : List Int) :
    φ.read (distOf bounds vs) = (vs.map (φ.gain bounds ·)).sum := by
  induction vs with
  | nil =>
    cases φ with
    | count => rfl
    | sum => rfl
    | bucket i =>
      simp only [Figure.read, distOf, newDist, List.map_nil, List.sum_nil,
        List.getD_eq_getElem?_getD, List.getElem?_map]
      cases bounds[i]? <;> rfl
  | cons v vs ih =>
    rw [List.map_cons, List.sum_cons, ← ih]
    cases φ with
    | count => exact Int.add_comm _ _
    | sum => exact Int.add_comm _ _
    | bucket i =>
      simp only [Figure.read, Figure.gain, distOf_buckets, List.getD_eq_getElem?_getD,
        List.getElem?_map]
      cases bounds[i]? with
      | none => rfl
      | some b =>
        simp only [Option.map_some, Option.getD_some, Option.any_some, List.countP_cons]
        by_cases hb : v ≤ b <;> simp [hb]
        exact Int.add_comm _ _

/-- What one request adds to a figure. -/
def gain (π : Part) (φ : Figure) (c : RouteObservation) : Int :=
  ((π.values [c]).map (φ.gain π.bounds ·)).sum

theorem values_cons (π : Part) (c : RouteObservation) (cs : List RouteObservation) :
    π.values (c :: cs) = π.values [c] ++ π.values cs := by
  cases π with
  | latency => rfl
  | tokens τ =>
    unfold Part.values tokensOf
    rw [← List.map_append, ← List.filter_append]
    rfl

theorem read_aggregate (π : Part) (φ : Figure) (cs : List RouteObservation) :
    φ.read (π.dist (aggregate cs)) = (cs.map (gain π φ)).sum := by
  rw [dist_aggregate, read_distOf]
  induction cs with
  | nil => cases π <;> rfl
  | cons c cs ih =>
    rw [values_cons, List.map_append, List.sum_append, ih]
    rfl

/-- A figure of a provider and an error type, over all models. -/
def total (π : Part) (φ : Figure) (provider errorType : String) (t : RouteTable) : Int :=
  ((t.snapshot.filter (fun e => e.1.provider = provider ∧ e.1.errorType = errorType)).map
    (fun e => φ.read (π.dist e.2))).sum

/-- A request with the key that it is measured under. -/
abbrev Placed := RouteKey × RouteObservation

/-- What was measured under a key. -/
def measuredAt (k : RouteKey) (obs : List Placed) : List RouteObservation :=
  (obs.filter (fun o => o.1 = k)).map Prod.snd

/-- The table holds these requests, and nothing else. -/
structure Holds (t : RouteTable) (obs : List Placed) : Prop where
  exact : ∀ k a, measures t k = some a → a = aggregate (measuredAt k obs)
  kept : ∀ o ∈ obs, o.1 ∈ t.m.keys

theorem total_of_holds {t : RouteTable} {obs : List Placed} (h : Holds t obs) (π : Part) (φ : Figure)
    (provider errorType : String) : total π φ provider errorType t =
      ((obs.filter (fun o => o.1.provider = provider ∧ o.1.errorType = errorType)).map
        (fun o => gain π φ o.2)).sum := by
  have hread : ∀ e ∈ t.snapshot, φ.read (π.dist e.2) =
      ((obs.filter (fun o => o.1 = e.1)).map (fun o => gain π φ o.2)).sum := by
    intro e he
    rw [h.exact e.1 e.2 (mem_snapshot.mp he), read_aggregate, measuredAt, List.map_map]
    rfl
  unfold total
  rw [List.map_congr_left (fun e he => hread e (List.mem_filter.mp he).1)]
  have hsum := Data.sum_by_key t.m.keys_nodup h.kept
    (fun k => decide (k.provider = provider ∧ k.errorType = errorType)) (fun o => gain π φ o.2)
  rw [← hsum, ← snapshot_keys, List.filter_map, List.map_map]
  rfl

theorem keyFor_none (t : RouteTable) (k : RouteKey) : keyFor none t k = k :=
  if_neg (fun h => by simp [full] at h)

theorem under_none (k : RouteKey) (cs : List RouteObservation) :
    under none k cs = measuredAt k (cs.map (fun c => (c.key, c))) := by
  induction cs with
  | nil => rfl
  | cons c past ih =>
    rw [under, keyFor_none, ih, measuredAt, measuredAt, List.map_cons, List.filter_cons]
    by_cases hk : c.key = k <;> simp [hk]

/-- A table without a cap holds every request under its own key. -/
theorem holds_uncapped (cs : List RouteObservation) :
    Holds (observedAll none cs) (cs.map (fun c => (c.key, c))) := by
  constructor
  · intro k a ha
    rw [← under_none]
    exact aggregate_of_mem_snapshot (mem_snapshot.mpr ha)
  · intro o ho
    obtain ⟨c, hc, rfl⟩ := List.mem_map.mp ho
    have hunder : under none c.key cs ≠ [] := by
      rw [under_none]
      apply List.ne_nil_of_mem (a := c)
      exact List.mem_map.mpr ⟨(c.key, c), by simp [List.mem_filter, hc], rfl⟩
    have hmem : (c.key, aggregate (under none c.key cs)) ∈ (observedAll none cs).snapshot := by
      rw [mem_snapshot, measures_observedAll, if_neg hunder]
    rw [← snapshot_keys]
    exact List.mem_map_of_mem hmem

/-- How far a request has come that is measured beside others. -/
inductive Phase where
  | fresh
  | missed
  | holding (k : RouteKey) (r : Nat)
  | recorded (k : RouteKey)

def Phase.prog (c : RouteObservation) : Phase → Prog RouteOp RouteAns Unit
  | fresh => observeRoute c
  | missed => do
    let r ← (Prog.call (RouteOp.getLocked c.key) : Prog RouteOp RouteAns Nat)
    (Prog.call (RouteOp.record r c) : Prog RouteOp RouteAns Unit)
  | holding _ r => (Prog.call (RouteOp.record r c) : Prog RouteOp RouteAns Unit)
  | recorded _ => .ret ()

theorem Phase.prog_ret {c : RouteObservation} {p : Phase} :
    p.prog c = .ret () ↔ ∃ k, p = .recorded k := by
  constructor
  · intro h
    cases p with
    | recorded k => exact ⟨k, rfl⟩
    | fresh => cases h
    | missed => cases h
    | holding k r => cases h
  · rintro ⟨k, rfl⟩
    rfl

theorem Phase.prog_record {c : RouteObservation} {p : Phase} :
    (∃ r, p.prog c = Prog.call (RouteOp.record r c)) ↔ ∃ k r, p = .holding k r := by
  constructor
  · rintro ⟨r, h⟩
    cases p with
    | holding k r' => exact ⟨k, r', rfl⟩
    | fresh => cases h
    | missed => cases h
    | recorded k => cases h
  · rintro ⟨k, r, rfl⟩
    exact ⟨r, rfl⟩

/-- The key of a request, or the one without its model. -/
def Near (c : RouteObservation) (k : RouteKey) : Prop :=
  k = c.key ∨ k = { c.key with model := "" }

/-- How many keys carry a model. -/
def models (t : RouteTable) : Nat := t.m.keys.countP (fun k => k.model ≠ "")

theorem models_le_size (t : RouteTable) : models t ≤ t.m.size := by
  have hlen : t.m.keys.length = t.m.size := by simp [Map.size, AList.keys, List.keys]
  rw [← hlen]
  exact List.countP_le_length

section
variable {t : RouteTable} {obs : List Placed}

theorem measures_isSome {k : RouteKey} : k ∈ t.m.keys ↔ measures t k ≠ none := by
  rw [← AList.mem_keys, ← AList.lookup_isSome, measures, Ne, Option.map_eq_none_iff,
    Option.isSome_iff_ne_none]

theorem lookup_kept {maxKeys : Option Nat} {k k' : RouteKey} {r : Nat} (h : t.m.lookup k' = some r) :
    (t.getLocked maxKeys k).2.m.lookup k' = some r := by
  rw [lookup_getLocked]
  split
  · rename_i hk
    subst hk
    rw [getLocked_eq, h]
  · exact h

theorem models_getLocked {n : Nat} (h : models t ≤ n) (k : RouteKey) :
    models (t.getLocked (some n) k).2 ≤ n := by
  rw [getLocked_eq]
  split
  · exact h
  · rename_i hfresh
    have hkeys : ((counted (some n) t k).create (keyFor (some n) t k)).2.m.keys =
        keyFor (some n) t k :: t.m.keys := by
      change (t.m.insert _ _).keys = _
      rw [AList.keys_insert, List.erase_of_not_mem]
      exact AList.lookup_eq_none.mp hfresh
    unfold models at h ⊢
    rw [hkeys, List.countP_cons]
    by_cases hmodel : (keyFor (some n) t k).model = ""
    · simpa [hmodel] using h
    · have hroom := room_of_fresh hfresh hmodel
      have hsize := models_le_size t
      unfold models at hsize
      have hlt : t.m.size < n := by simpa [full] using hroom
      rw [if_pos (by simpa using hmodel)]
      omega

theorem Holds.getLocked {maxKeys : Option Nat} (h : Holds t obs) (hs : Sane t) (k : RouteKey) :
    Holds (t.getLocked maxKeys k).2 obs := by
  constructor
  · intro k' a ha
    rw [measures_getLocked hs] at ha
    split at ha
    · obtain rfl := Option.some.inj ha
      cases hm : measures t k' with
      | some a => exact h.exact k' a hm
      | none =>
        have hnone : measuredAt k' obs = [] := by
          unfold measuredAt
          rw [List.map_eq_nil_iff, List.filter_eq_nil_iff]
          intro o ho hk
          have hkept := h.kept o ho
          rw [of_decide_eq_true hk, measures_isSome] at hkept
          exact hkept hm
        rw [hnone]
        rfl
    · exact h.exact k' a ha
  · intro o ho
    have hkept := h.kept o ho
    rw [← AList.mem_keys, ← AList.lookup_isSome] at hkept ⊢
    obtain ⟨r, hr⟩ := Option.isSome_iff_exists.mp hkept
    rw [lookup_kept hr]
    rfl

theorem Holds.record (h : Holds t obs) (hs : Sane t) {k : RouteKey} {r : Nat}
    (hr : t.m.lookup k = some r) (c : RouteObservation) : Holds (t.record r c) ((k, c) :: obs) := by
  constructor
  · intro k' a ha
    rw [measures_record hs hr] at ha
    unfold measuredAt
    split at ha
    · rename_i hk
      subst hk
      obtain ⟨b, hb, rfl⟩ := Option.map_eq_some_iff.mp ha
      rw [h.exact k' b hb]
      simp [measuredAt, aggregate]
    · rename_i hk
      rw [List.filter_cons_of_neg (by simpa using Ne.symm hk)]
      exact h.exact k' a ha
  · intro o ho
    rcases List.mem_cons.mp ho with rfl | ho
    · exact AList.mem_keys.mp (AList.lookup_isSome.mp (Option.isSome_of_eq_some hr))
    · exact h.kept o ho

theorem folded_getLocked {maxKeys : Option Nat} (k : RouteKey) :
    (t.getLocked maxKeys k).2.folded = t.folded + if keyFor maxKeys t k = k then 0 else 1 := by
  rw [getLocked_eq]
  split <;> rfl

end

variable {ι : Type}

/-- A request and the key it is measured under. -/
abbrev Entry (ι : Type) := ι × RouteKey

/-- The table while requests are measured side by side. `done` have been recorded, the last one
first, `held` have their measurements but have not recorded yet. -/
structure Inv (calls : ι → RouteObservation) (t : RouteTable) (phase : ι → Phase)
    (done held : List (Entry ι)) : Prop where
  sane : Sane t
  capped : models t ≤ routeMaxKeys
  mem_done : ∀ i k, (i, k) ∈ done ↔ phase i = .recorded k
  mem_held : ∀ i k, (i, k) ∈ held ↔ ∃ r, phase i = .holding k r
  done_nodup : done.Nodup
  held_nodup : held.Nodup
  leads : ∀ i k r, phase i = .holding k r → t.m.lookup k = some r
  near : ∀ p ∈ done ++ held, Near (calls p.1) p.2
  holds : Holds t (done.map (fun p => (p.2, calls p.1)))
  folded : t.folded = ((done ++ held).countP (fun p => p.2 ≠ (calls p.1).key) : Nat)

section
variable [DecidableEq ι] {calls : ι → RouteObservation} {t t' : RouteTable} {phase : ι → Phase}
  {done held : List (Entry ι)} {i : ι}

omit [DecidableEq ι] in
theorem inv_empty : Inv calls {} (fun _ => .fresh) [] [] := by
  refine ⟨sane_empty, Nat.zero_le _, by simp, by simp, List.nodup_nil, List.nodup_nil, by simp,
    by simp, ⟨?_, by simp⟩, rfl⟩
  intro k a ha
  cases ha

theorem Inv.miss (h : Inv calls t phase done held) (hi : phase i = .fresh) :
    Inv calls t (Function.update phase i .missed) done held := by
  have hother : ∀ p, p ≠ .fresh → p ≠ .missed → ∀ j, Function.update phase i .missed j = p ↔ phase j = p := by
    intro p hp hp' j
    by_cases hj : j = i
    · subst hj
      simp [hi, Ne.symm hp, Ne.symm hp']
    · simp [hj]
  refine { h with mem_done := ?_, mem_held := ?_, leads := ?_ }
  · intro j k
    rw [h.mem_done, hother _ (by simp) (by simp)]
  · intro j k
    rw [h.mem_held]
    exact exists_congr (fun r => (hother _ (by simp) (by simp) j).symm)
  · intro j k r hj
    exact h.leads j k r ((hother _ (by simp) (by simp) j).mp hj)

/-- A request that gets its measurements. -/
theorem Inv.hold (h : Inv calls t phase done held) (hi : ∀ k r, phase i ≠ .holding k r)
    (hi' : ∀ k, phase i ≠ .recorded k) {k : RouteKey} {r : Nat} (hr : t'.m.lookup k = some r)
    (hnear : Near (calls i) k) (hsane : Sane t') (hcapped : models t' ≤ routeMaxKeys)
    (hkept : ∀ k r, t.m.lookup k = some r → t'.m.lookup k = some r)
    (hholds : Holds t' (done.map (fun p => (p.2, calls p.1))))
    (hfolded : t'.folded = t.folded + if k = (calls i).key then 0 else 1) :
    Inv calls t' (Function.update phase i (.holding k r)) done ((i, k) :: held) := by
  refine ⟨hsane, hcapped, ?_, ?_, h.done_nodup, ?_, ?_, ?_, hholds, ?_⟩
  · intro j k'
    rw [h.mem_done]
    by_cases hj : j = i
    · subst hj
      simp [hi']
    · simp [hj]
  · intro j k'
    rw [List.mem_cons, h.mem_held]
    by_cases hj : j = i
    · subst hj
      simp [hi, eq_comm]
    · simp [hj]
  · refine List.nodup_cons.mpr ⟨?_, h.held_nodup⟩
    rw [h.mem_held]
    rintro ⟨r', hr'⟩
    exact hi _ _ hr'
  · intro j k' r' hj
    by_cases hji : j = i
    · subst hji
      rw [Function.update_self] at hj
      cases hj
      exact hr
    · rw [Function.update_of_ne hji] at hj
      exact hkept _ _ (h.leads j k' r' hj)
  · intro p hp
    rw [List.mem_append, List.mem_cons] at hp
    rcases hp with hp | rfl | hp
    · exact h.near p (List.mem_append_left _ hp)
    · exact hnear
    · exact h.near p (List.mem_append_right _ hp)
  · rw [hfolded, h.folded, List.countP_append, List.countP_append, List.countP_cons]
    by_cases hk : k = (calls i).key <;> simp [hk] <;> omega

theorem Inv.record (h : Inv calls t phase done held) {k : RouteKey} {r : Nat}
    (hi : phase i = .holding k r) : Inv calls (t.record r (calls i))
      (Function.update phase i (.recorded k)) ((i, k) :: done) (held.erase (i, k)) := by
  have hmem : (i, k) ∈ held := (h.mem_held i k).mpr ⟨r, hi⟩
  refine ⟨h.sane.record r _, h.capped, ?_, ?_, ?_, h.held_nodup.erase _, ?_, ?_,
    h.holds.record h.sane (h.leads i k r hi) _, ?_⟩
  · intro j k'
    rw [List.mem_cons, h.mem_done]
    by_cases hj : j = i
    · subst hj
      simp [hi, eq_comm]
    · simp [hj]
  · intro j k'
    rw [h.held_nodup.mem_erase_iff, h.mem_held]
    by_cases hj : j = i
    · subst hj
      simp [hi]
      tauto
    · simp [hj]
  · refine List.nodup_cons.mpr ⟨?_, h.done_nodup⟩
    rw [h.mem_done, hi]
    simp
  · intro j k' r' hj
    by_cases hji : j = i
    · subst hji
      simp at hj
    · rw [Function.update_of_ne hji] at hj
      exact h.leads j k' r' hj
  · intro p hp
    rw [List.cons_append, List.mem_cons, List.mem_append] at hp
    rcases hp with rfl | hp | hp
    · exact h.near _ (List.mem_append_right _ hmem)
    · exact h.near p (List.mem_append_left _ hp)
    · exact h.near p (List.mem_append_right _ (List.mem_of_mem_erase hp))
  · have hperm : (done ++ held).Perm ((i, k) :: done ++ held.erase (i, k)) :=
      ((List.perm_cons_erase hmem).append_left done).trans List.perm_middle
    rw [← hperm.countP_eq]
    exact h.folded

theorem Inv.hit (h : Inv calls t phase done held) (hi : phase i = .fresh) {r : Nat}
    (hr : t.m.lookup (calls i).key = some r) :
    Inv calls t (Function.update phase i (.holding (calls i).key r)) done
      ((i, (calls i).key) :: held) := by
  apply h.hold (by simp [hi]) (by simp [hi]) hr (.inl rfl) h.sane h.capped (fun _ _ h => h) h.holds
  simp

theorem Inv.got (h : Inv calls t phase done held) (hi : phase i = .missed) :
    Inv calls (t.getLocked (some routeMaxKeys) (calls i).key).2
      (Function.update phase i (.holding (keyFor (some routeMaxKeys) t (calls i).key)
        (t.getLocked (some routeMaxKeys) (calls i).key).1)) done
      ((i, keyFor (some routeMaxKeys) t (calls i).key) :: held) := by
  apply h.hold (by simp [hi]) (by simp [hi])
  · rw [lookup_getLocked, if_pos rfl]
  · unfold keyFor
    split
    · exact .inr rfl
    · exact .inl rfl
  · exact h.sane.getLocked _
  · exact models_getLocked h.capped _
  · exact fun _ _ hr => lookup_kept hr
  · exact h.holds.getLocked h.sane _
  · exact folded_getLocked _

/-- Each program is as far as its phase says. -/
def Tracked (calls : ι → RouteObservation) (c : Conf RouteOp RouteAns RouteTable ι Unit)
    (phase : ι → Phase) (done held : List (Entry ι)) : Prop :=
  (∀ i, c.prog i = (phase i).prog (calls i)) ∧ Inv calls c.state phase done held

theorem prog_update {c : Conf RouteOp RouteAns RouteTable ι Unit} {i : ι} {p : Phase}
    {q : Prog RouteOp RouteAns Unit} {e : Effect.Event RouteOp RouteAns} {s : RouteTable}
    (h : ∀ j, c.prog j = (phase j).prog (calls j)) (hq : q = p.prog (calls i)) :
    ∀ j, (c.advance i e q s).prog j = (Function.update phase i p j).prog (calls j) := by
  intro j
  by_cases hj : j = i
  · subst hj
    simp [hq]
  · simp [hj, h j]

abbrev measuring : Machine RouteOp RouteAns RouteTable :=
  (routeDriver (some routeMaxKeys)).machine

theorem tracked_move {c d : Conf RouteOp RouteAns RouteTable ι Unit}
    (h : Tracked calls c phase done held) (hm : measuring.Move Machine.anyMove c d) :
    ∃ phase done held, Tracked calls d phase done held := by
  obtain ⟨hprog, hinv⟩ := h
  cases hm with
  | env s he => exact nomatch he.choose
  | run i o k x s hp hs =>
    rw [hprog] at hp
    obtain ⟨ch, hs⟩ := hs
    cases hi : phase i with
    | fresh =>
      rw [hi] at hp
      cases hp
      cases hs
      cases hr : c.state.m.lookup (calls i).key with
      | none => exact ⟨_, done, held, prog_update hprog rfl, hinv.miss hi⟩
      | some r => exact ⟨_, _, _, prog_update hprog rfl, hinv.hit hi hr⟩
    | missed =>
      rw [hi] at hp
      cases hp
      have hs := Option.some.inj hs
      obtain rfl := congrArg Prod.fst hs
      obtain rfl := congrArg Prod.snd hs
      exact ⟨_, _, _, prog_update hprog rfl, hinv.got hi⟩
    | holding k r =>
      rw [hi] at hp
      cases hp
      cases hs
      exact ⟨_, _, _, prog_update hprog rfl, hinv.record hi⟩
    | recorded k =>
      rw [hi] at hp
      cases hp

theorem tracked {c : Conf RouteOp RouteAns RouteTable ι Unit}
    (hr : measuring.Reaches Machine.anyMove (.start {} (fun i => observeRoute (calls i))) c) :
    ∃ phase done held, Tracked calls c phase done held := by
  induction hr with
  | refl => exact ⟨fun _ => .fresh, [], [], fun _ => rfl, inv_empty⟩
  | tail _ hm ih =>
    obtain ⟨phase, done, held, h⟩ := ih
    exact tracked_move h hm

/-- A route's measurements stay where they are. -/
theorem lookup_reaches {c d : Conf RouteOp RouteAns RouteTable ι Unit}
    (hr : measuring.Reaches Machine.anyMove c d) {k : RouteKey} {r : Nat}
    (h : c.state.m.lookup k = some r) : d.state.m.lookup k = some r := by
  induction hr with
  | refl => exact h
  | tail _ hm ih =>
    cases hm with
    | env s he => exact nomatch he.choose
    | run i o _ x s _ hs =>
      obtain ⟨ch, hs⟩ := hs
      obtain rfl := congrArg Prod.snd (Option.some.inj hs)
      cases o with
      | lookup k' => exact ih
      | getLocked k' => exact lookup_kept ih
      | record r' c' => exact ih

omit [DecidableEq ι] in
/-- Summed up over the models, the table holds what a table without a cap would hold. -/
theorem Inv.conserved (h : Inv calls t phase done held) (π : Part) (φ : Figure)
    (provider errorType : String) : total π φ provider errorType t =
      total π φ provider errorType (observedAll none (done.map (fun p => calls p.1))) := by
  rw [total_of_holds h.holds, total_of_holds (holds_uncapped _), List.map_map, List.filter_map,
    List.filter_map, List.map_map, List.map_map]
  have hsame : ∀ p ∈ done, p.2.provider = (calls p.1).key.provider ∧
      p.2.errorType = (calls p.1).key.errorType := by
    intro p hp
    rcases h.near p (List.mem_append_left _ hp) with hk | hk <;> rw [hk] <;> exact ⟨rfl, rfl⟩
  have hfilter := List.filter_congr (p := fun p : Entry ι =>
      decide (p.2.provider = provider ∧ p.2.errorType = errorType))
    (q := fun p => decide ((calls p.1).key.provider = provider ∧ (calls p.1).key.errorType = errorType))
    (fun p hp => by rw [(hsame p hp).1, (hsame p hp).2])
  exact congrArg (fun l => (l.map (fun p : Entry ι => gain π φ (calls p.1))).sum) hfilter

/-- What is known of the table while requests are measured side by side. `done` have been recorded,
the last one first, each under its key; `held` have their measurements but have not recorded yet. -/
structure Accounted (calls : ι → RouteObservation) (c : Conf RouteOp RouteAns RouteTable ι Unit)
    (done held : List (Entry ι)) : Prop where
  recorded : ∀ i, (∃ k, (i, k) ∈ done) ↔ c.prog i = .ret ()
  holding : ∀ i, (∃ k, (i, k) ∈ held) ↔ ∃ r, c.prog i = Prog.call (RouteOp.record r (calls i))
  once : (done.map Prod.fst).Nodup ∧ (held.map Prod.fst).Nodup
  near : ∀ p ∈ done ++ held, Near (calls p.1) p.2
  capped : models c.state ≤ routeMaxKeys
  apart : ∀ k k' r, c.state.m.lookup k = some r → c.state.m.lookup k' = some r → k = k'
  holds : Holds c.state (done.map (fun p => (p.2, calls p.1)))
  conserved : ∀ π φ provider errorType, total π φ provider errorType c.state =
    total π φ provider errorType (observedAll none (done.map (fun p => calls p.1)))
  folded : c.state.folded = ((done ++ held).countP (fun p => p.2 ≠ (calls p.1).key) : Nat)

omit [DecidableEq ι] in
theorem accounted {c : Conf RouteOp RouteAns RouteTable ι Unit}
    (h : Tracked calls c phase done held) : Accounted calls c done held := by
  obtain ⟨hprog, hinv⟩ := h
  have hdone : ∀ i k k', (i, k) ∈ done → (i, k') ∈ done → k = k' := by
    intro i k k' hk hk'
    rw [hinv.mem_done] at hk hk'
    rw [hk] at hk'
    exact Phase.recorded.inj hk'
  have hheld : ∀ i k k', (i, k) ∈ held → (i, k') ∈ held → k = k' := by
    intro i k k' hk hk'
    rw [hinv.mem_held] at hk hk'
    obtain ⟨r, hr⟩ := hk
    obtain ⟨r', hr'⟩ := hk'
    rw [hr] at hr'
    exact (Phase.holding.inj hr').1
  refine ⟨?_, ?_, ⟨?_, ?_⟩, hinv.near, hinv.capped, hinv.sane.apart, hinv.holds, hinv.conserved,
    hinv.folded⟩
  · intro i
    rw [hprog, Phase.prog_ret]
    exact exists_congr (hinv.mem_done i)
  · intro i
    rw [hprog, Phase.prog_record]
    exact exists_congr (hinv.mem_held i)
  · apply hinv.done_nodup.map_on
    intro p hp q hq hpq
    exact Prod.ext hpq (hdone p.1 p.2 q.2 hp (hpq ▸ hq))
  · apply hinv.held_nodup.map_on
    intro p hp q hq hpq
    exact Prod.ext hpq (hheld p.1 p.2 q.2 hp (hpq ▸ hq))

/-- Folding loses the model and nothing else, however the requests interleave. -/
theorem folding_loses_only_the_model (calls : ι → RouteObservation)
    (c : Conf RouteOp RouteAns RouteTable ι Unit)
    (hr : measuring.Reaches Machine.anyMove (.start {} (fun i => observeRoute (calls i))) c) :
    (∃ done held, Accounted calls c done held) ∧
      ∀ d, measuring.Reaches Machine.anyMove c d → ∀ k r, c.state.m.lookup k = some r →
        d.state.m.lookup k = some r := by
  obtain ⟨phase, done, held, h⟩ := tracked hr
  exact ⟨⟨done, held, accounted h⟩, fun d hd k r => lookup_reaches hd⟩

end

/-- Two requests of one new model that both miss it before either adds it. -/
def side (i : Bool) : RouteObservation := ⟨"openai", "gpt-4o", 200, if i then 5 else 7, {}⟩

def sideBySide : Conf RouteOp RouteAns RouteTable Bool Unit :=
  (routeDriver (some routeMaxKeys)).play (fun _ _ _ _ => true) (fun _ _ => true) 3
    [.go true (fun o => o matches .getLocked _) (fun _ => ()),
      .go false (fun o => o matches .getLocked _) (fun _ => ()),
      .go true (fun _ => false) (fun _ => ()), .go false (fun _ => false) (fun _ => ())]
    (.start {} (fun i => observeRoute (side i)))

theorem folding_loses_only_the_model_side_by_side :
    sideBySide.state.heap = [aggregate [side false, side true]] ∧
      ∃ done held, Accounted side sideBySide done held := by
  refine ⟨by decide, (folding_loses_only_the_model side sideBySide ?_).1⟩
  exact Effect.Driver.play_reaches (fun _ _ _ _ _ => trivial) (fun _ _ _ => trivial) _ _ _

end Switchboard.Proofs.Folding
