import Switchboard.Proofs.Holding
import Switchboard.Proofs.NoReplay
import Switchboard.Proofs.Sweep

namespace Switchboard.Proofs.Ownership
open Text Gateway Watch Steps Entry Store Honest Holding NoReplay IdemStore
open Effect (Monitor Prog Machine Conf)

/-- The entry of `key`, if there is one, has not outlived the store's patience, neither by
what it says nor by the age of its file. -/
def Young (sha : Bytes → Bytes) (key : String) (w : World) : Prop :=
  ∀ f, w.idem.files.lookup (path sha key) = some f → w.now - f.modTime ≤ w.idem.ttl ∧
    ∀ e, decodeEntry f.content = some e → w.now - e.stored * second ≤ w.idem.ttl

/-- The entry of `key` is `e`. -/
def Stands (sha : Bytes → Bytes) (key : String) (e : IdemEntry) (w : World) : Prop :=
  Storable e ∧ ∃ f, w.idem.files.lookup (path sha key) = some f ∧ f.content = encodeEntry e

/-- The sweep has not listed the entry of `key`. -/
def Spared (sha : Bytes → Bytes) (key : String) (w : World) : Prop :=
  ∀ v ∈ w.sweeper.victims, v.name ≠ path sha key

section
variable {sha : Bytes → Bytes} {key k : String} {body : Bytes} {w w' : World} {e : IdemEntry}

theorem Stands.unique {d : IdemEntry} (h : Stands sha key e w) (hd : Stands sha key d w) : e = d := by
  obtain ⟨he, f, hf, hc⟩ := h
  obtain ⟨hd, f', hf', hc'⟩ := hd
  rw [hf] at hf'
  cases hf'
  have hdecoded := decode_encode he
  rw [← hc, hc', decode_encode hd] at hdecoded
  exact (Option.some.inj hdecoded).symm

/-- An entry that stands and is young is found. -/
theorem Stands.read (h : Stands sha key e w) (hyoung : Young sha key w) :
    w.idem.read sha w.now key = some e := by
  obtain ⟨he, f, hf, hc⟩ := h
  have hage := (hyoung f hf).2 e (by rw [hc, decode_encode he])
  rw [read_encoded hf he hc, if_neg (Int.not_lt.mpr hage)]

/-- What is answered to somebody who asks for a key whose entry is `e`. -/
def verdict (sha : Bytes → Bytes) (e : IdemEntry) (body : Bytes) :
    Except StoreError (Option IdemEntry) :=
  if e.bodyHash ≠ hashBody sha body then .error .mismatch
  else if e.state = .done then .ok (some e) else .error .conflict

/-- Whoever asks for a key that has an entry is answered from it, and it is left alone. -/
theorem begun_standing {r : Except StoreError (Option IdemEntry)} {s' : IdemStore}
    (h : Stands sha key e w) (hyoung : Young sha key w)
    (hb : Begun sha w.idem w.now key body r s') : r = verdict sha e body ∧ s' = w.idem := by
  have hread := h.read hyoung
  unfold verdict
  cases hb with
  | mismatch d hd hhash =>
    obtain rfl := Option.some.inj (hread.symm.trans hd)
    rw [if_pos hhash]
    exact ⟨rfl, rfl⟩
  | replay d hd hhash hdone =>
    obtain rfl := Option.some.inj (hread.symm.trans hd)
    rw [if_neg (not_not.mpr hhash), if_pos hdone]
    exact ⟨rfl, rfl⟩
  | conflict d hd hhash hdone =>
    obtain rfl := Option.some.inj (hread.symm.trans hd)
    rw [if_neg (not_not.mpr hhash), if_neg hdone]
    exact ⟨rfl, rfl⟩
  | claimed _ hnone _ => rw [hread] at hnone; cases hnone
  | full hnone _ => rw [hread] at hnone; cases hnone
  | disk _ hnone _ => rw [hread] at hnone; cases hnone

theorem Stands.same (h : Stands sha key e w)
    (hf : w'.idem.files.lookup (path sha key) = w.idem.files.lookup (path sha key)) :
    Stands sha key e w' := by
  obtain ⟨he, f, hlookup, hc⟩ := h
  exact ⟨he, f, hf.trans hlookup, hc⟩

/-- The sweep passes by an entry that is young and not listed. -/
theorem Spared.sweep {step : SweepStep} (h : Spared sha key w) (hyoung : Young sha key w)
    (hs : w.idem.sweep w.now w.sweeper step = some (w'.idem, w'.sweeper)) :
    Spared sha key w' ∧
      w'.idem.files.lookup (path sha key) = w.idem.files.lookup (path sha key) := by
  cases step with
  | scan =>
    simp only [IdemStore.sweep] at hs
    split at hs
    · obtain ⟨hidem, hsweeper⟩ := Prod.mk.inj (Option.some.inj hs)
      refine ⟨fun v hv hname => ?_, by rw [← hidem]⟩
      rw [← hsweeper] at hv
      obtain ⟨f, hf, hold, -⟩ := Sweep.mem_expired hv
      rw [hname] at hf
      have hage := (hyoung f hf).1
      omega
    · cases hs
  | remove deleted =>
    simp only [IdemStore.sweep] at hs
    split at hs
    · rename_i v vs hv _
      have htail : ∀ u ∈ vs, u.name ≠ path sha key := fun u hu => h u (hv ▸ List.mem_cons_of_mem v hu)
      split at hs
      · obtain ⟨hidem, hsweeper⟩ := Prod.mk.inj (Option.some.inj hs)
        refine ⟨fun u hu => htail u (by rw [← hsweeper] at hu; exact hu), ?_⟩
        rw [← hidem]
        exact AList.lookup_erase_ne (Ne.symm (h v (by simp [hv])))
      · obtain ⟨hidem, hsweeper⟩ := Prod.mk.inj (Option.some.inj hs)
        exact ⟨fun u hu => htail u (by rw [← hsweeper] at hu; exact hu), by rw [← hidem]⟩
    · cases hs
  | account =>
    simp only [IdemStore.sweep] at hs
    split at hs
    · obtain ⟨hidem, hsweeper⟩ := Prod.mk.inj (Option.some.inj hs)
      exact ⟨fun u hu => h u (by rw [← hsweeper] at hu; exact hu), by rw [← hidem]⟩
    · cases hs

theorem Spared.change {ed : Bytes → Bytes → Bytes → Bool} {c : Change} (h : Spared sha key w)
    (hyoung : Young sha key w) (hc : w.change ed c = some w') :
    Spared sha key w' ∧
      w'.idem.files.lookup (path sha key) = w.idem.files.lookup (path sha key) := by
  rcases (change_aged hc).store with ⟨hidem, hsweeper⟩ | ⟨step, hs⟩
  · exact ⟨fun v hv => h v (by rw [hsweeper] at hv; exact hv), by rw [hidem]⟩
  · exact h.sweep hyoung hs

end

/-- What an operation of a request means to `key`: nothing, or it asks for it, records an
outcome for it or gives it back. -/
inductive Meant (sha : Bytes → Bytes) (key : String) (w w' : World) (g g' : Ghost) :
    Effect.Event Op Ans → Prop where
  | quiet (e : Effect.Event Op Ans) :
      w'.idem.files.lookup (path sha key) = w.idem.files.lookup (path sha key) →
      (g.key = key → g'.claim = g.claim) → Meant sha key w w' g g' e
  | begun (body : Bytes) (r : Except StoreError (Option IdemEntry)) : g.key = key →
      g.claim = .none → Begun sha w.idem w.now key body r w'.idem → g'.claim = claimOf body r →
      Meant sha key w w' g g' ⟨.beginKey key body, r⟩
  | finished (stored : Bool) (body : Bytes) (e : IdemEntry) (r : Option StoreError) : g.key = key →
      g.claim = .opened stored body → Storable e → e.state ≠ .running →
      e.bodyHash = hashBody sha body → Written sha w.idem w.now key e r w'.idem →
      g'.claim = .recorded stored body e → Meant sha key w w' g g' ⟨.finishKey key e, ()⟩
  | released (stored : Bool) (body : Bytes) (removed : Bool) : g.key = key →
      g.claim = .opened stored body → w'.idem = w.idem.release sha key removed →
      g'.claim = .released stored → Meant sha key w w' g g' ⟨.releaseKey key, ()⟩

section
variable {srv : Server} {key : String} {w w' : World} {g : Ghost} {o : Op} {x : Ans o} {ch : Chance}

theorem meant (hsha : Function.Injective srv.lib.sha256) (hok : (rules srv).ok g o)
    (hs : w.perform srv o ch = some (x, w')) :
    Meant srv.lib.sha256 key w w' g ((rules srv).next g o x) ⟨o, x⟩ := by
  have hother : ∀ {k : String}, k = g.key → Elsewhere (path srv.lib.sha256 k) w.idem w'.idem →
      k ≠ key → Meant srv.lib.sha256 key w w' g ((rules srv).next g o x) ⟨o, x⟩ := by
    intro k hk hstore hne
    refine .quiet _ (hstore.files _ (fun hp => hne (path_injective hsha hp.symm))) (fun hkey => ?_)
    exact absurd (hk.trans hkey) hne
  cases o with
  | beginKey k body =>
    obtain ⟨hk, -, hnone⟩ := hok
    have hb := begin_step hs
    by_cases hkey : k = key
    · subst hkey
      exact .begun body x hk.symm hnone hb (begun_claim g body x)
    · exact hother hk hb.elsewhere hkey
  | finishKey k e =>
    obtain ⟨hk, hstorable, hstate, stored, body, hopen, hhash, -⟩ := hok
    obtain ⟨r, hw⟩ := finish_step hs
    by_cases hkey : k = key
    · subst hkey
      refine .finished stored body e r hk.symm hopen hstorable ?_ hhash hw ?_
      · rcases hstate with hu | ⟨hd, -⟩
        · simp [hu]
        · simp [hd]
      · simp [watch, Ghost.finished, hopen]
    · exact hother hk hw.elsewhere hkey
  | releaseKey k =>
    obtain ⟨hk, ⟨stored, body, hopen⟩, -⟩ := hok
    obtain ⟨removed, hidem⟩ := release_step hs
    by_cases hkey : k = key
    · subst hkey
      refine .released stored body removed hk.symm hopen hidem ?_
      simp [watch, Ghost.given, hopen]
    · exact hother hk (hidem ▸ release_elsewhere _ _ k removed) hkey
  | _ =>
    refine .quiet _ ?_ (fun _ => (next_frame srv (fun _ => True) g _ x).claim rfl)
    rw [(perform_kept hs).idem rfl]

end

/-- Whoever holds `key` holds it alone, with the entry it wrote in place, out of the way of
the sweep and of everybody who went on without an entry. -/
structure Owned (sha : Bytes → Bytes) (key : String) (w : World) (g : ι → Ghost) : Prop where
  alone : ∀ i j b b', Holds key b (g i) → Holds key b' (g j) → i = j
  stands : ∀ i b, Holds key b (g i) → ∃ t, Stands sha key (running sha t b) w
  spared : ∀ i b, Holds key b (g i) → Spared sha key w
  clear : ∀ i b, Holds key b (g i) → ∀ j b', ¬ Loose key b' (g j)

section
variable {sha : Bytes → Bytes} {key : String} {w w' : World} {g g' : ι → Ghost}

theorem Owned.vacant (h : ∀ i b, ¬ Holds key b (g i)) : Owned sha key w g :=
  ⟨fun i _ b _ hi => absurd hi (h i b), fun i b hi => absurd hi (h i b),
    fun i b hi => absurd hi (h i b), fun i b hi => absurd hi (h i b)⟩

theorem Owned.carry (h : Owned sha key w g)
    (hfile : w'.idem.files.lookup (path sha key) = w.idem.files.lookup (path sha key))
    (hspared : Spared sha key w → Spared sha key w')
    (hholds : ∀ i b, Holds key b (g' i) → Holds key b (g i))
    (hloose : ∀ i b, Loose key b (g' i) → Loose key b (g i)) : Owned sha key w' g' where
  alone i j b b' hi hj := h.alone i j b b' (hholds i b hi) (hholds j b' hj)
  stands i b hi := by
    obtain ⟨t, ht⟩ := h.stands i b (hholds i b hi)
    exact ⟨t, ht.same hfile⟩
  spared i b hi := hspared (h.spared i b (hholds i b hi))
  clear i b hi j b' hj := h.clear i b (hholds i b hi) j b' (hloose j b' hj)

theorem Owned.change {ed : Bytes → Bytes → Bytes → Bool} {c : Change} (h : Owned sha key w g)
    (hyoung : (∃ j b, Holds key b (g j)) → Young sha key w) (hc : w.change ed c = some w') :
    Owned sha key w' g ∧ ∀ j b, Holds key b (g j) →
      w'.idem.files.lookup (path sha key) = w.idem.files.lookup (path sha key) := by
  by_cases hheld : ∃ j b, Holds key b (g j)
  · obtain ⟨j, b, hj⟩ := hheld
    obtain ⟨hspared, hfile⟩ := (h.spared j b hj).change (hyoung ⟨j, b, hj⟩) hc
    exact ⟨h.carry hfile (fun _ => hspared) (fun _ _ h => h) (fun _ _ h => h), fun _ _ _ => hfile⟩
  · have hnobody : ∀ j b, ¬ Holds key b (g j) := fun j b hj => hheld ⟨j, b, hj⟩
    exact ⟨.vacant hnobody, fun j b hj => absurd hj (hnobody j b)⟩

variable [DecidableEq ι] {i : ι} {gi : Ghost}

theorem update_cases {P : Ghost → Prop} {j : ι} (h : P (Function.update g i gi j)) :
    j ≠ i ∧ P (g j) ∨ j = i ∧ P gi := by
  by_cases hj : j = i
  · subst hj
    rw [Function.update_self] at h
    exact .inr ⟨rfl, h⟩
  · rw [Function.update_of_ne hj] at h
    exact .inl ⟨hj, h⟩

/-- Somebody who settles was the only one to hold the key, or nobody did. -/
theorem Owned.unheld {stored : Bool} {body : Bytes} (h : Owned sha key w g) (hk : (g i).key = key)
    (hopen : (g i).claim = .opened stored body) (hi : ∀ b, ¬ Holds key b gi) (j : ι) (b : Bytes) :
    ¬ Holds key b (Function.update g i gi j) := by
  intro hj
  rcases update_cases (P := Holds key b) hj with ⟨hne, hj⟩ | ⟨-, hj⟩
  · cases stored with
    | true => exact hne (h.alone j i b body hj ⟨hk, hopen⟩)
    | false => exact h.clear j b hj i body ⟨hk, hopen⟩
  · exact hi b hj

/-- A refused claim is no claim. -/
theorem claimOf_verdict {e : IdemEntry} {b body : Bytes} {stored : Bool} (he : e.state ≠ .done) :
    claimOf body (verdict sha e body) ≠ .opened stored b := by
  unfold verdict
  rw [if_neg he]
  split <;> nofun

theorem Owned.step {e : Effect.Event Op Ans} (h : Owned sha key w g)
    (hm : Meant sha key w w' (g i) gi e) (hkey : gi.key = (g i).key)
    (hsweeper : w'.sweeper = w.sweeper)
    (hasked : ∀ body r, e = ⟨.beginKey key body, r⟩ →
      ((∃ j b, Holds key b (g j)) → Young sha key w) ∧
      (r = .ok none → (∀ j b, ¬ Loose key b (g j)) ∧ Spared sha key w)) :
    Owned sha key w' (Function.update g i gi) ∧
      ∀ j b, Holds key b (g j) → Holds key b (Function.update g i gi j) →
        w'.idem.files.lookup (path sha key) = w.idem.files.lookup (path sha key) := by
  have hspared : Spared sha key w → Spared sha key w' := fun hs v hv => hs v (hsweeper ▸ hv)
  cases hm with
  | quiet _ hfile hsame =>
    have hback : ∀ {stored : Bool} {j : ι} {b : Bytes},
        (Function.update g i gi j).key = key ∧
          (Function.update g i gi j).claim = .opened stored b →
        (g j).key = key ∧ (g j).claim = .opened stored b := by
      intro stored j b hj
      rcases update_cases (P := fun g => g.key = key ∧ g.claim = .opened stored b) hj with
        ⟨-, hj⟩ | ⟨rfl, hk, hc⟩
      · exact hj
      · have hk' : (g j).key = key := hkey.symm.trans hk
        exact ⟨hk', (hsame hk').symm.trans hc⟩
    exact ⟨h.carry hfile hspared (fun _ _ hj => hback hj) (fun _ _ hj => hback hj), fun _ _ _ _ => hfile⟩
  | begun body r hk hnone hb hclaim =>
    obtain ⟨hyoung, hclear⟩ := hasked body r rfl
    by_cases hheld : ∃ j b, Holds key b (g j)
    · obtain ⟨j, b, hj⟩ := hheld
      obtain ⟨t, ht⟩ := h.stands j b hj
      obtain ⟨rfl, hidem⟩ := begun_standing ht (hyoung ⟨j, b, hj⟩) hb
      have hrefused : ∀ stored b', gi.claim ≠ .opened stored b' := by
        intro stored b'
        rw [hclaim]
        exact claimOf_verdict nofun
      have hfile : w'.idem.files.lookup (path sha key) = w.idem.files.lookup (path sha key) := by
        rw [hidem]
      refine ⟨h.carry hfile hspared ?_ ?_, fun _ _ _ _ => hfile⟩
      · intro l b' hl
        rcases update_cases (P := Holds key b') hl with ⟨-, hl⟩ | ⟨-, -, hc⟩
        · exact hl
        · exact absurd hc (hrefused _ _)
      · intro l b' hl
        rcases update_cases (P := Loose key b') hl with ⟨-, hl⟩ | ⟨-, -, hc⟩
        · exact hl
        · exact absurd hc (hrefused _ _)
    · have hnobody : ∀ j b, ¬ Holds key b (g j) := fun j b hj => hheld ⟨j, b, hj⟩
      refine ⟨?_, fun j b hj => absurd hj (hnobody j b)⟩
      by_cases hr : r = .ok none
      · subst hr
        obtain ⟨hloose, hlisted⟩ := hclear rfl
        have honly : ∀ j b, Holds key b (Function.update g i gi j) → j = i ∧ b = body := by
          intro j b hj
          rcases update_cases (P := Holds key b) hj with ⟨-, hj⟩ | ⟨hji, -, hc⟩
          · exact absurd hj (hnobody j b)
          · rw [hclaim] at hc
            cases hc
            exact ⟨hji, rfl⟩
        refine ⟨fun j l b b' hj hl => (honly j b hj).1.trans (honly l b' hl).1.symm, ?_, ?_, ?_⟩
        · intro j b hj
          obtain ⟨-, rfl⟩ := honly j b hj
          cases hb with
          | claimed _ _ hw =>
            cases hw with
            | complete _ _ hf => exact ⟨w.now, storable_running, _, hf, rfl⟩
        · intro _ _ _
          exact hspared hlisted
        · intro _ _ _ j b' hj
          rcases update_cases (P := Loose key b') hj with ⟨-, hj⟩ | ⟨-, -, hc⟩
          · exact hloose j b' hj
          · rw [hclaim] at hc
            cases hc
      · apply Owned.vacant
        intro j b hj
        rcases update_cases (P := Holds key b) hj with ⟨-, hj⟩ | ⟨-, -, hc⟩
        · exact hnobody j b hj
        · rw [hclaim] at hc
          rcases r with er | prior
          · cases er <;> cases hc
          · cases prior with
            | none => exact hr rfl
            | some e => cases hc
  | finished stored body e r hk hopen _ _ _ _ hclaim =>
    have hi : ∀ b, ¬ Holds key b gi := by
      rintro b ⟨-, hc⟩
      rw [hclaim] at hc
      cases hc
    have hnobody := h.unheld hk hopen hi
    exact ⟨.vacant hnobody, fun j b _ hj => absurd hj (hnobody j b)⟩
  | released stored body removed hk hopen _ hclaim =>
    have hi : ∀ b, ¬ Holds key b gi := by
      rintro b ⟨-, hc⟩
      rw [hclaim] at hc
      cases hc
    have hnobody := h.unheld hk hopen hi
    exact ⟨.vacant hnobody, fun j b _ hj => absurd hj (hnobody j b)⟩

end

section
variable [DecidableEq ι]

/-- While somebody holds `key`, neither a request that asks for it nor the sweep finds its entry
too old. When it is claimed, nobody is at work without an entry for it, and the sweep has not
listed it. -/
def Owning (sha : Bytes → Bytes) (key : String) : Effect.Condition Op Ans World ι (Option Event) where
  run c _ e _ := ∀ body r, e = ⟨.beginKey key body, r⟩ →
    ((∃ j b, InFlight key b (c.log j)) → Young sha key c.state) ∧
    (r = .ok none → (∀ j b, ¬ Unstored key b (c.log j)) ∧ Spared sha key c.state)
  env c _ := (∃ j b, InFlight key b (c.log j)) → Young sha key c.state

variable {ed : Bytes → Bytes → Bytes → Bool} {srv : Server} {tasks : ι → Task} {w : World}
  {key : String} {c : Conf Op Ans World ι (Option Event)}

/-- The bookkeeping of everybody. -/
abbrev ghosts (srv : Server) (tasks : ι → Task) (c : Conf Op Ans World ι (Option Event)) (i : ι) :
    Ghost :=
  (rules srv).after (ghost (tasks i)) (c.log i)

theorem held_iff {P : Effect.Condition Op Ans World ι (Option Event)}
    (hr : (machine ed srv).Reaches P (.start w (fun i => (tasks i).run srv)) c) :
    (∃ j b, Holds key b (ghosts srv tasks c j)) ↔ ∃ j b, InFlight key b (c.log j) :=
  exists_congr (fun j => exists_congr (fun _ => (inFlight_iff (Machine.run_of_reaches hr j)).symm))

/-- The condition in terms of the bookkeeping. -/
theorem owning_ghosts {P : Effect.Condition Op Ans World ι (Option Event)} {sha : Bytes → Bytes} {i : ι}
    {e : Effect.Event Op Ans} {s : World}
    (hr : (machine ed srv).Reaches P (.start w (fun i => (tasks i).run srv)) c)
    (h : (Owning sha key).run c i e s) (body : Bytes) (r : Except StoreError (Option IdemEntry))
    (he : e = ⟨.beginKey key body, r⟩) :
    ((∃ j b, Holds key b (ghosts srv tasks c j)) → Young sha key c.state) ∧
    (r = .ok none → (∀ j b, ¬ Loose key b (ghosts srv tasks c j)) ∧ Spared sha key c.state) := by
  obtain ⟨hyoung, hclear⟩ := h body r he
  refine ⟨fun hheld => hyoung ((held_iff hr).mp hheld), fun hclaimed => ?_⟩
  obtain ⟨hloose, hspared⟩ := hclear hclaimed
  exact ⟨fun j b hj => hloose j b ((unstored_iff (Machine.run_of_reaches hr j)).mpr hj), hspared⟩

theorem owned_reaches (hsha : Function.Injective srv.lib.sha256)
    (hr : (machine ed srv).Reaches (Owning srv.lib.sha256 key) (.start w (fun i => (tasks i).run srv)) c) :
    Owned srv.lib.sha256 key c.state (ghosts srv tasks c) := by
  refine (Machine.invariant (G := rules srv) (I := Owned srv.lib.sha256 key)
    (fun i => run_spec srv (fun _ => True) (tasks i)) (.vacant ?_) ?_ ?_ hr).1
  · rintro i b ⟨-, hc⟩
    rw [ghost_claim] at hc
    cases hc
  · intro d s' hd hi he hyoung
    obtain ⟨change, hc⟩ := he
    exact (hi.change (fun hheld => hyoung ((held_iff hd).mp hheld)) hc).1
  · intro d i o x s' hd hi hok hs hp
    obtain ⟨ch, hs⟩ := hs
    refine ⟨rules_may srv _ o x,
      (hi.step (meant hsha hok hs) ?_ (perform_kept hs).sweeper (owning_ghosts hd hp)).1⟩
    exact (next_frame srv (fun _ => True) _ o x).key

end

/-- As long as the entry of a key does not grow old while somebody holds it, and it is claimed
when nobody is at work without an entry and the sweep has not listed it: the entry of whoever
holds the key is in place, nothing but their own settlement replaces or deletes it, and
everybody else who asks for the key is refused. -/
theorem running_entry_is_owned [DecidableEq ι] (ed25519Verify : Bytes → Bytes → Bytes → Bool)
    (srv : Server) (hsha : Function.Injective srv.lib.sha256) (tasks : ι → Task) (w : World)
    (key : String) (c : Conf Op Ans World ι (Option Event))
    (hr : (machine ed25519Verify srv).Reaches (Owning srv.lib.sha256 key)
      (.start w (fun i => (tasks i).run srv)) c)
    (i : ι) (body : Bytes) (hi : InFlight key body (c.log i)) :
    (∃ t, Stands srv.lib.sha256 key (running srv.lib.sha256 t body) c.state) ∧
    (∀ d, (machine ed25519Verify srv).Move (Owning srv.lib.sha256 key) c d →
      InFlight key body (d.log i) →
      d.state.idem.files.lookup (path srv.lib.sha256 key) =
        c.state.idem.files.lookup (path srv.lib.sha256 key)) ∧
    (∀ j other k r s', c.prog j = .op (.beginKey key other) k →
      (machine ed25519Verify srv).step c.state (.beginKey key other) r s' →
      (Owning srv.lib.sha256 key).run c j ⟨.beginKey key other, r⟩ s' →
      r = (if other = body then .error .conflict else .error .mismatch) ∧
        s'.idem = c.state.idem) := by
  have howned := owned_reaches hsha hr
  have hrun := fun j => Machine.run_of_reaches hr j
  have hholds := (inFlight_iff (hrun i)).mp hi
  obtain ⟨t, hstands⟩ := howned.stands i body hholds
  refine ⟨⟨t, hstands⟩, ?_, ?_⟩
  · intro d hm hd
    have hdholds := (inFlight_iff (Machine.run_of_reaches (hr.tail hm) i)).mp hd
    cases hm with
    | env s' he hyoung =>
      obtain ⟨change, hc⟩ := he
      exact (howned.change (fun hheld => hyoung ((held_iff hr).mp hheld)) hc).2 i body hholds
    | run j o k x s' hp hs hcond =>
      obtain ⟨ch, hs⟩ := hs
      have hok : (rules srv).ok (ghosts srv tasks c j) o := next_allowed (hp ▸ hrun j)
      refine (howned.step (i := j) (meant hsha hok hs) ?_ (perform_kept hs).sweeper
        (owning_ghosts hr hcond)).2 i body hholds ?_
      · exact (next_frame srv (fun _ => True) _ o x).key
      · have hafter := congrFun (Machine.advance_after (rules srv) (fun i => ghost (tasks i)) c j o x
          (k x) s') i
        rwa [hafter] at hdholds
  · intro j other k r s' hp hs hcond
    obtain ⟨ch, hs⟩ := hs
    obtain ⟨rfl, hidem⟩ := begun_standing hstands ((hcond other r rfl).1 ⟨i, body, hi⟩) (begin_step hs)
    refine ⟨?_, hidem⟩
    by_cases hb : other = body
    · simp [verdict, running, hb]
    · have hhash : hashBody srv.lib.sha256 body ≠ hashBody srv.lib.sha256 other :=
        fun h => hb (hashBody_injective hsha h).symm
      simp [verdict, running, hb, hhash]

/-- The key somebody holds, and the body it was claimed with. -/
def heldBy (g : Ghost) : Option (String × Bytes) :=
  match g.claim with
  | .opened true body => some (g.key, body)
  | _ => none

theorem holds_of_heldBy {g : Ghost} {key : String} {body : Bytes} (h : heldBy g = some (key, body)) :
    Holds key body g := by
  unfold heldBy at h
  split at h
  · rename_i hc
    cases h
    exact ⟨rfl, hc⟩
  · cases h

/-- A store that forgets an entry after a second, where a request may take ninety. -/
def impatient : Server := { plainServer with c := { plainConfig with idempotencyTTLSeconds := 1 } }

def sending : Op → Bool
  | .send _ => true
  | _ => false

/-- Two requests with the same key: the second comes two seconds after the first has gone to
a provider. -/
def overtaken : Conf Op Ans World Bool (Option Event) :=
  (driver (fun _ _ _ => true) impatient).play (fun _ _ _ _ => true) (fun _ _ => true) 200
    [.go false sending (smooth busy), .env (.tick 2000000000), .go true sending (smooth busy)]
    (.start (plainWorld impatient.c) (fun _ => (Task.chat (plainRequest "k")).run impatient))

theorem overtaken_reached :
    (machine (fun _ _ _ => true) impatient).Reaches Machine.anyMove
      (.start (plainWorld impatient.c) (fun _ => (Task.chat (plainRequest "k")).run impatient))
      overtaken :=
  Effect.Driver.play_reaches (fun _ _ _ _ _ => trivial) (fun _ _ _ => trivial) _ _ _

theorem impatient_store_lets_two_in :
    impatient.c.validate impatient.lib = .ok () ∧
      InFlight "k" plainBody (overtaken.log false) ∧ InFlight "k" plainBody (overtaken.log true) := by
  have hboth : ∀ i, heldBy ((rules impatient).after (ghost (.chat (plainRequest "k")))
      (overtaken.log i)) = some ("k", plainBody) := by
    decide +kernel
  have hin : ∀ i, InFlight "k" plainBody (overtaken.log i) := fun i =>
    (inFlight_iff (Machine.run_of_reaches overtaken_reached i)).mpr (holds_of_heldBy (hboth i))
  exact ⟨by decide, hin false, hin true⟩

/-- The store has an entry for `key` that is young, or none. -/
def calm (sha : Bytes → Bytes) (key : String) (w : World) : Bool :=
  match w.idem.files.lookup (path sha key) with
  | none => true
  | some f => decide (w.now - f.modTime ≤ w.idem.ttl) &&
      match decodeEntry f.content with
      | none => true
      | some e => decide (w.now - e.stored * second ≤ w.idem.ttl)

theorem young_of_calm {sha : Bytes → Bytes} {key : String} {w : World} (h : calm sha key w = true) :
    Young sha key w := by
  intro f hf
  unfold calm at h
  rw [hf] at h
  simp only [Bool.and_eq_true, decide_eq_true_eq] at h
  refine ⟨h.1, fun e he => ?_⟩
  have hage := h.2
  rw [he] at hage
  simpa using hage

/-- A request goes on without an entry. -/
def storeless : Effect.Event Op Ans → Bool
  | ⟨.beginKey _ _, .error .full⟩ => true
  | ⟨.beginKey _ _, .error .disk⟩ => true
  | _ => false

theorem not_unstored {log : List (Effect.Event Op Ans)} (h : log.any storeless = false) (key : String)
    (body : Bytes) : ¬ Unstored key body log := by
  intro hu
  have hall : ∀ e ∈ log, storeless e = false := by simpa using h
  rcases hu with hu | hu
  · exact absurd (hall _ hu.mem) nofun
  · exact absurd (hall _ hu.mem) nofun

/-- Whoever asks for `key` finds everything as its owner needs it. -/
def peaceful (sha : Bytes → Bytes) (key : String) (c : Conf Op Ans World Bool (Option Event)) :
    Effect.Event Op Ans → Bool
  | ⟨.beginKey _ _, _⟩ => calm sha key c.state && c.state.sweeper.victims.isEmpty &&
      !(c.log false).any storeless && !(c.log true).any storeless
  | _ => true

theorem owning_of_peaceful {sha : Bytes → Bytes} {key : String}
    {c : Conf Op Ans World Bool (Option Event)} {e : Effect.Event Op Ans}
    (h : peaceful sha key c e = true) (i : Bool) (s : World) : (Owning sha key).run c i e s := by
  rintro body r rfl
  simp only [peaceful, Bool.and_eq_true, Bool.not_eq_true', List.isEmpty_iff] at h
  obtain ⟨⟨⟨hcalm, hvictims⟩, hfalse⟩, htrue⟩ := h
  refine ⟨fun _ => young_of_calm hcalm, fun _ => ⟨fun j b => ?_, fun v hv => ?_⟩⟩
  · cases j with
    | false => exact not_unstored hfalse key b
    | true => exact not_unstored htrue key b
  · rw [hvictims] at hv
    cases hv

/-- Two requests with the same key, the second while the first is with a provider. -/
def contested : Conf Op Ans World Bool (Option Event) :=
  (driver (fun _ _ _ => true) plainServer).play (fun c _ e _ => peaceful id "k" c e)
    (fun c _ => calm id "k" c.state) 200 [.go false sending (smooth busy), .go true sending (smooth busy)]
    (.start (plainWorld plainConfig) (fun _ => (Task.chat (plainRequest "k")).run plainServer))

theorem contested_reached :
    (machine (fun _ _ _ => true) plainServer).Reaches (Owning id "k")
      (.start (plainWorld plainConfig) (fun _ => (Task.chat (plainRequest "k")).run plainServer))
      contested :=
  Effect.Driver.play_reaches (fun _ i _ s h => owning_of_peaceful h i s)
    (fun _ _ h _ => young_of_calm h) _ _ _

theorem running_entry_is_owned_contested :
    (contested.log true).any (fun | ⟨.beginKey _ _, .error .conflict⟩ => true | _ => false) = true ∧
      ∃ t, Stands id "k" (running id t plainBody) contested.state := by
  have hheld : heldBy ((rules plainServer).after (ghost (.chat (plainRequest "k")))
      (contested.log false)) = some ("k", plainBody) := by
    decide +kernel
  have hin : InFlight "k" plainBody (contested.log false) :=
    (inFlight_iff (Machine.run_of_reaches contested_reached false)).mpr (holds_of_heldBy hheld)
  exact ⟨by decide +kernel, (running_entry_is_owned _ plainServer Function.injective_id _ _ "k" _
    contested_reached false plainBody hin).1⟩

end Switchboard.Proofs.Ownership
