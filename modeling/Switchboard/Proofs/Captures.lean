import Switchboard.Gateway.Capture
import Switchboard.Proofs.Account
import Switchboard.Proofs.Sweep

namespace Switchboard.Proofs.Captures
open Text Gateway Data CaptureStore
open Account (fileSize)
open Effect (runs)

def requestOf : CaptureAct → Option String
  | .write id _ => some id
  | _ => none

/-- What the passes have removed but not yet taken off the account. -/
def owed (p : Victim → Int) (ws : List Sweeper) : Int :=
  (ws.map (fun w => (w.removed.map p).getD 0)).sum

/-- What is counted is what is there and what is owed, and within the limits. Requests to
come have no files, and a file that a pass has still to remove is as old as it was found, and
as long, if it is there at all. -/
structure Kept (ttl limit : Int) (coming : List String) (s : Captures) : Prop where
  same : s.store.ttl = ttl ∧ s.store.limit = limit
  unwritten : ∀ id ∈ coming, s.store.files.lookup (path id) = none
  listed : ∀ w ∈ s.sweepers, ∀ v ∈ w.victims, (∀ id ∈ coming, v.name ≠ path id) ∧
    ∀ f, s.store.files.lookup v.name = some f → ttl < s.now - f.modTime ∧ v.size = fileSize f
  owing : ∀ w ∈ s.sweepers, ∀ v, w.removed = some v → 0 ≤ v.size
  used : s.store.used = weight fileSize s.store.files + owed Victim.size s.sweepers
  count : s.store.count = weight (fun _ => 1) s.store.files + owed (fun _ => 1) s.sweepers
  within : s.store.used ≤ limit
  few : s.store.count ≤ captureMaxRecords

section
variable {ttl limit : Int} {coming : List String} {s s' : Captures} {p : Victim → Int}
  {ws : List Sweeper} {w w' : Sweeper} {i : Nat}

theorem owed_set (h : ws[i]? = some w) : owed p (ws.set i w') =
    owed p ws - (w.removed.map p).getD 0 + (w'.removed.map p).getD 0 := by
  induction ws generalizing i with
  | nil => cases h
  | cons x ws ih =>
    cases i with
    | zero =>
      obtain rfl : x = w := by simpa using h
      simp only [owed, List.set_cons_zero, List.map_cons, List.sum_cons]
      omega
    | succ i =>
      have ih := ih (by simpa using h)
      simp only [owed, List.set_cons_succ, List.map_cons, List.sum_cons] at ih ⊢
      omega

theorem owed_nonneg (h : ∀ w ∈ ws, ∀ v, w.removed = some v → 0 ≤ p v) : 0 ≤ owed p ws := by
  refine List.sum_nonneg (fun x hx => ?_)
  obtain ⟨w, hw, rfl⟩ := List.mem_map.mp hx
  cases hr : w.removed with
  | none => exact Int.le_refl 0
  | some v => exact h w hw v hr

/-- The files on the disk are within the limits. -/
theorem Kept.disk (h : Kept ttl limit coming s) : weight fileSize s.store.files ≤ limit ∧
    weight (fun _ => 1) s.store.files ≤ captureMaxRecords := by
  have hsize := owed_nonneg h.owing
  have hone : 0 ≤ owed (fun _ => 1) s.sweepers := owed_nonneg (fun _ _ _ _ => by decide)
  have hused := h.used
  have hcount := h.count
  have hwithin := h.within
  have hfew := h.few
  omega

/-- `Write` refuses, or there is room. -/
theorem write_cases (s : CaptureStore) (now : Int) (id : String) (b : Option Bytes) :
    (∃ e, s.write now id b = (some e, s)) ∨
      ∃ c, s.used + c.length ≤ s.limit ∧ s.count < captureMaxRecords ∧
        s.write now id b = (none, { s with
          files := s.files.insert (path id) ⟨c, now⟩
          count := if s.existing id = 0 then s.count + 1 else s.count
          used := s.used + (c.length - s.existing id) }) := by
  unfold CaptureStore.write
  split
  · exact .inl ⟨_, rfl⟩
  · split
    · exact .inl ⟨_, rfl⟩
    · split
      · exact .inl ⟨_, rfl⟩
      · split
        · exact .inl ⟨_, rfl⟩
        · rename_i hroom
          exact .inr ⟨_, by omega, by omega, rfl⟩

theorem Kept.write {id : String} (h : Kept ttl limit (id :: coming) s) (hid : id ∉ coming)
    (b : Option Bytes) :
    Kept ttl limit coming { s with store := (s.store.write s.now id b).2 } := by
  have hnone := h.unwritten id List.mem_cons_self
  have hother : ∀ id' ∈ coming, path id' ≠ path id := fun id' hmem heq =>
    hid ((String.append_left_inj _).mp heq ▸ hmem)
  rcases write_cases s.store s.now id b with ⟨e, hw⟩ | ⟨c, hroom, hfew, hw⟩
  · rw [hw]
    exact { h with
      unwritten := fun id' hmem => h.unwritten id' (List.mem_cons_of_mem _ hmem)
      listed := fun w hw v hv => ⟨fun id' hmem =>
        (h.listed w hw v hv).1 id' (List.mem_cons_of_mem _ hmem), (h.listed w hw v hv).2⟩ }
  · have hexisting : s.store.existing id = 0 := by rw [existing, hnone]; rfl
    rw [hw, hexisting, if_pos rfl, Int.sub_zero]
    refine ⟨h.same, fun id' hmem => ?_, fun w hw v hv => ?_, h.owing, ?_, ?_, h.same.2 ▸ hroom, hfew⟩
    · rw [AList.lookup_insert_ne (hother id' hmem)]
      exact h.unwritten id' (List.mem_cons_of_mem _ hmem)
    · obtain ⟨hapart, hold⟩ := h.listed w hw v hv
      refine ⟨fun id' hmem => hapart id' (List.mem_cons_of_mem _ hmem), fun f hf => hold f ?_⟩
      rwa [AList.lookup_insert_ne (hapart id List.mem_cons_self)] at hf
    · rw [weight_insert_absent hnone, h.used]
      simp only [fileSize]
      omega
    · rw [weight_insert_absent hnone, h.count]
      dsimp only
      omega

/-- A step of a pass, which only takes files away. -/
theorem Kept.set (h : Kept ttl limit coming s) (hw : s.sweepers[i]? = some w)
    (hv : ∀ v ∈ w'.victims, v ∈ w.victims) (hr : ∀ v, w'.removed = some v → 0 ≤ v.size)
    {files : Map String IdemFile} {used count : Int} (hfiles : ∀ name f, files.lookup name = some f →
      s.store.files.lookup name = some f)
    (hused : used = weight fileSize files + owed Victim.size (s.sweepers.set i w'))
    (hcount : count = weight (fun _ => 1) files + owed (fun _ => 1) (s.sweepers.set i w'))
    (hless : used ≤ s.store.used) (hfewer : count ≤ s.store.count) :
    Kept ttl limit coming { s with
      store := { s.store with files := files, used := used, count := count }
      sweepers := s.sweepers.set i w' } := by
  refine ⟨h.same, fun id hmem => ?_, fun x hx v hmem => ?_, fun x hx v hmem => ?_, hused, hcount,
    hless.trans h.within, hfewer.trans h.few⟩
  · refine Option.eq_none_iff_forall_ne_some.mpr (fun f hf => ?_)
    cases (h.unwritten id hmem).symm.trans (hfiles _ f hf)
  · rcases List.mem_or_eq_of_mem_set hx with hx | rfl
    · exact ⟨(h.listed x hx v hmem).1, fun f hf => (h.listed x hx v hmem).2 f (hfiles _ f hf)⟩
    · have hlisted := h.listed w (List.mem_of_getElem? hw) v (hv v hmem)
      exact ⟨hlisted.1, fun f hf => hlisted.2 f (hfiles _ f hf)⟩
  · rcases List.mem_or_eq_of_mem_set hx with hx | rfl
    · exact h.owing x hx v hmem
    · exact hr v hmem

/-- What a pass may take away, and that it is counted until it is accounted for. -/
theorem Kept.remove (h : Kept ttl limit coming s) (hs : s.step (.remove i) = some s') :
    Kept ttl limit coming s' ∧ ∀ name f, s.store.files.lookup name = some f →
      s'.store.files.lookup name = some f ∨
        s'.store.files.lookup name = none ∧ ttl < s.now - f.modTime := by
  simp only [Captures.step] at hs
  split at hs
  · rename_i v vs hw
    have hlisted := h.listed _ (List.mem_of_getElem? hw) v List.mem_cons_self
    split at hs
    · rename_i hthere
      obtain ⟨f, hf⟩ := Option.isSome_iff_exists.mp hthere
      obtain ⟨hold, hlong⟩ := hlisted.2 f hf
      cases hs
      refine ⟨h.set hw (fun u hu => List.mem_cons_of_mem _ hu) ?_ (fun name g hg => ?_) ?_ ?_
        (Int.le_refl _) (Int.le_refl _), fun name g hg => ?_⟩
      · rintro u ⟨⟩
        rw [hlong, fileSize]
        omega
      · by_cases hname : name = v.name
        · rw [hname, AList.lookup_erase] at hg
          cases hg
        · rwa [AList.lookup_erase_ne hname] at hg
      · rw [weight_erase hf, owed_set hw, h.used, ← hlong]
        simp
      · rw [weight_erase hf, owed_set hw, h.count]
        simp
      · by_cases hname : name = v.name
        · subst hname
          obtain rfl := Option.some.inj (hf.symm.trans hg)
          exact .inr ⟨AList.lookup_erase _ _, hold⟩
        · exact .inl ((AList.lookup_erase_ne hname).trans hg)
    · cases hs
      refine ⟨h.set hw (fun u hu => List.mem_cons_of_mem _ hu) (by rintro u ⟨⟩) (fun _ _ hg => hg)
        ?_ ?_ (Int.le_refl _) (Int.le_refl _), fun _ _ hg => .inl hg⟩
      · rw [owed_set hw, h.used]
        simp
      · rw [owed_set hw, h.count]
        simp
  · cases hs

theorem Kept.account (h : Kept ttl limit coming s) (hs : s.step (.account i) = some s') :
    Kept ttl limit coming s' := by
  simp only [Captures.step] at hs
  split at hs
  · rename_i vs v hw
    cases hs
    have hsize := h.owing _ (List.mem_of_getElem? hw) v rfl
    refine h.set hw (fun u (hu : u ∈ vs) => hu) (by rintro u ⟨⟩) (fun _ _ hg => hg) ?_ ?_ ?_ ?_
    · rw [owed_set hw, h.used]
      simp
      omega
    · rw [owed_set hw, h.count]
      simp
      omega
    · omega
    · omega
  · cases hs

/-- A restart counts what it keeps. -/
theorem Kept.restart (h : Kept ttl limit coming s) (hs : s.step .restart = some s') :
    Kept ttl limit coming s' := by
  cases hs
  obtain ⟨hsize, hone⟩ := h.disk
  have hless : ∀ (size : IdemFile → Int) (m : Map String IdemFile) q, (∀ f, 0 ≤ size f) →
      weight size (m.filter q) ≤ weight size m := by
    intro size m q hpos
    refine (List.filter_sublist.map _).sum_le_sum (fun x hx => ?_)
    obtain ⟨e, -, rfl⟩ := List.mem_map.mp hx
    exact hpos e.2
  have hcount := weight_one (newCaptureStore s.store.files s.now s.store.ttl s.store.limit).files
  refine ⟨h.same, fun id hmem => ?_, nofun, nofun, (Int.add_zero _).symm,
    hcount.symm.trans (Int.add_zero _).symm, ?_, ?_⟩
  · have hnone := h.unwritten id hmem
    rw [AList.lookup_eq_none] at hnone ⊢
    exact fun hin => hnone ((List.filter_sublist.map _).subset hin)
  · exact (hless fileSize _ _ (fun f => Int.natCast_nonneg _)).trans hsize
  · exact (hcount.symm.le.trans (hless _ _ _ (fun _ => Int.one_nonneg))).trans hone

theorem Kept.step {act : CaptureAct} (h : Kept ttl limit ((requestOf act).toList ++ coming) s)
    (hnew : ((requestOf act).toList ++ coming).Nodup) (hs : s.step act = some s') :
    Kept ttl limit coming s' := by
  cases act with
  | tick d =>
    cases hs
    refine { h with listed := fun w hw v hv => ⟨(h.listed w hw v hv).1, fun f hf => ?_⟩ }
    obtain ⟨hold, hlong⟩ := (h.listed w hw v hv).2 f hf
    exact ⟨by dsimp only; omega, hlong⟩
  | write id b =>
    cases hs
    exact h.write (List.nodup_cons.mp hnew).1 b
  | scan =>
    cases hs
    have howed : ∀ p, owed p (s.sweepers ++ [{ victims := s.store.expired s.now }]) =
        owed p s.sweepers := by
      intro p
      simp [owed]
    refine ⟨h.same, h.unwritten, List.forall_mem_append.mpr ⟨h.listed, List.forall_mem_singleton.mpr ?_⟩,
      List.forall_mem_append.mpr ⟨h.owing, List.forall_mem_singleton.mpr (by rintro v ⟨⟩)⟩,
      howed _ ▸ h.used, howed _ ▸ h.count, h.within, h.few⟩
    intro v hv
    obtain ⟨f, hf, hold, hlong⟩ :=
      Sweep.mem_expired (s := ⟨s.store.files, s.store.ttl, 0, 0, 0⟩) hv
    refine ⟨fun id hmem heq => ?_, fun g hg => ?_⟩
    · cases (h.unwritten id hmem).symm.trans (heq ▸ hf)
    · obtain rfl := Option.some.inj (hf.symm.trans hg)
      exact ⟨h.same.1 ▸ hold, hlong⟩
  | remove i => exact (h.remove hs).1
  | account i => exact h.account hs
  | restart => exact h.restart hs

theorem Kept.runs {acts : List CaptureAct} (h : Kept ttl limit (acts.filterMap requestOf) s)
    (hnew : (acts.filterMap requestOf).Nodup) (hr : runs Captures.step s acts = some s') :
    Kept ttl limit [] s' := by
  induction acts generalizing s with
  | nil => exact Option.some.inj hr ▸ h
  | cons act acts ih =>
    obtain ⟨u, hu, hr⟩ := Option.bind_eq_some_iff.mp hr
    have hnext : (act :: acts).filterMap requestOf =
        (requestOf act).toList ++ acts.filterMap requestOf := by
      cases hact : requestOf act <;> simp [hact]
    rw [hnext] at h hnew
    exact ih (h.step hnew hu) (List.nodup_append.mp hnew).2.1 hr

end

/-- From an empty directory, after any calls of `Write` for different requests, steps of any
passes of `Sweep` and restarts: the files are within both limits, and where no pass has one
left to account for, what is counted is what is there. A call that is refused changes nothing,
and a pass removes a record only for its age. -/
theorem captures_within_limits (now ttl limit : Int) (hlimit : 0 ≤ limit) (acts : List CaptureAct)
    (hdistinct : (acts.filterMap requestOf).Nodup) (s : Captures)
    (hr : runs Captures.step { now := now, store := newCaptureStore ∅ now ttl limit } acts = some s) :
    (s.store.files.entries.map (fun f => (f.2.content.length : Int))).sum ≤ limit ∧
    s.store.files.size ≤ 50000 ∧
    ((∀ w ∈ s.sweepers, w.removed = none) →
      s.store.used = (s.store.files.entries.map (fun f => (f.2.content.length : Int))).sum ∧
      s.store.count = s.store.files.size) ∧
    (∀ id b e, (s.store.write s.now id b).1 = some e → (s.store.write s.now id b).2 = s.store) ∧
    ∀ i s', s.step (.remove i) = some s' → ∀ name f, s.store.files.lookup name = some f →
      s'.store.files.lookup name = some f ∨
        s'.store.files.lookup name = none ∧ ttl < s.now - f.modTime := by
  have hkept : Kept ttl limit [] s := by
    refine Kept.runs ⟨⟨rfl, rfl⟩, fun _ _ => rfl, by rintro _ ⟨⟩, by rintro _ ⟨⟩, rfl, rfl,
      hlimit, ?_⟩ hdistinct hr
    show (0 : Int) ≤ 50000
    decide
  obtain ⟨hsize, hone⟩ := hkept.disk
  rw [weight_one] at hone
  refine ⟨hsize, Int.ofNat_le.mp hone, fun hsettled => ?_, fun id b e he => ?_,
    fun i s' hs => (hkept.remove hs).2⟩
  · have howed : ∀ p, owed p s.sweepers = 0 := by
      intro p
      refine List.sum_eq_zero (fun x hx => ?_)
      obtain ⟨w, hw, rfl⟩ := List.mem_map.mp hx
      rw [hsettled w hw]
      rfl
    have hused := hkept.used
    have hcount := hkept.count
    rw [howed, Int.add_zero] at hused hcount
    exact ⟨hused, hcount.trans (weight_one _)⟩
  · rcases write_cases s.store s.now id b with ⟨e', hw⟩ | ⟨c, -, -, hw⟩
    · rw [hw]
    · rw [hw] at he
      cases he

/-- A record grows old, and is removed by one of two passes that have found it. -/
def swept : List CaptureAct :=
  [.write "00000000000000000000000000000000" (some [1, 2, 3]), .tick 11, .scan, .scan, .remove 0,
    .remove 1, .account 0, .write "11111111111111111111111111111111" (some [4, 5])]

theorem captures_within_limits_swept : ∃ s,
    runs Captures.step { now := 0, store := newCaptureStore ∅ 0 10 5 } swept = some s ∧
      s.store.files.size = 1 ∧ s.store.count = 1 := by
  have hfacts : (runs Captures.step { now := 0, store := newCaptureStore ∅ 0 10 5 } swept).map
      (fun s => (s.store.files.size, s.sweepers.all (fun w => decide (w.removed = none)))) =
      some (1, true) := by decide
  obtain ⟨s, hs, hfacts⟩ := Option.map_eq_some_iff.mp hfacts
  obtain ⟨hsize, hsettled⟩ := Prod.mk.inj hfacts
  obtain ⟨-, -, hexact, -⟩ := captures_within_limits 0 10 5 (by decide) swept (by decide) s hs
  have hcount := (hexact (fun w hw => of_decide_eq_true (List.all_eq_true.mp hsettled w hw))).2
  exact ⟨s, hs, hsize, by rw [hcount, hsize]; rfl⟩

end Switchboard.Proofs.Captures
