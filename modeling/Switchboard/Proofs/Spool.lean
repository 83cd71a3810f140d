import Switchboard.Controlplane.Exchange
import Switchboard.Proofs.Deliver
import Switchboard.Proofs.NoReplay
import Switchboard.Proofs.Valid

namespace Switchboard.Proofs.Spool
open Text Gateway Controlplane
open Deliver (Quiet Keeps Carries)
open Effect (Monitor Prog Workers)
open Gateway.Telemetry (SpoolOp SpoolAns SpoolMetric Spooled S spooledFile)
open NoReplay (plainConfig plainServer)

def isSpoolFile (path : String) : Bool := ".json".toList.isSuffixOf path.toList

theorem isSpoolFile_append (id : String) : isSpoolFile (id ++ ".json") = true := by
  unfold isSpoolFile
  rw [String.toList_append, List.isSuffixOf_iff_suffix]
  exact List.suffix_append _ _

/-- What a file counts in a gauge. -/
def weigh (m : SpoolMetric) (f : String × Bytes) : Int :=
  if isSpoolFile f.1 then
    match m with
    | .spoolUsed => f.2.length
    | .spoolCount => 1
    | _ => 0
  else 0

theorem weigh_nonneg (m : SpoolMetric) (f : String × Bytes) : 0 ≤ weigh m f := by
  unfold weigh
  split
  · cases m <;> simp
  · exact Int.le_refl 0

theorem counted_cons (f : String × Bytes) (files : List (String × Bytes)) (m : SpoolMetric) :
    Exchange.counted (f :: files) m = weigh m f + Exchange.counted files m := by
  unfold Exchange.counted weigh isSpoolFile
  by_cases hf : ".json".toList.isSuffixOf f.1.toList = true
  · rw [if_pos hf, List.filter_cons, if_pos hf]
    cases m with
    | spoolUsed => rw [List.map_cons, List.sum_cons]
    | spoolCount =>
      simp only [List.length_cons]
      omega
    | _ => rfl
  · rw [if_neg hf, List.filter_cons, if_neg hf]
    cases m with
    | spoolUsed => rw [Int.zero_add]
    | spoolCount => rw [Int.zero_add]
    | _ => rfl

section
variable {files : List (String × Bytes)} {path : String} {b : Bytes}

theorem removeFile_absent (h : ∀ f ∈ files, f.1 ≠ path) : Exchange.removeFile path files = files := by
  apply List.filter_eq_self.mpr
  intro f hf
  simpa using h f hf

theorem counted_setFile (h : ∀ f ∈ files, f.1 ≠ path) (m : SpoolMetric) :
    Exchange.counted (Exchange.setFile path b files) m = Exchange.counted files m + weigh m (path, b) := by
  have hsame : files.filter (fun f => f.1 != path) = files := removeFile_absent h
  rw [Exchange.setFile, hsame, counted_cons, Int.add_comm]

theorem counted_removeFile (hnodup : (files.map Prod.fst).Nodup) (h : files.lookup path = some b)
    (m : SpoolMetric) :
    Exchange.counted (Exchange.removeFile path files) m + weigh m (path, b) = Exchange.counted files m := by
  induction files with
  | nil => cases h
  | cons f files ih =>
    obtain ⟨k, c⟩ := f
    rw [List.map_cons, List.nodup_cons] at hnodup
    by_cases hk : path = k
    · subst hk
      have hc : c = b := by simpa using h
      subst hc
      have hrest : ∀ f ∈ files, f.1 ≠ path := by
        intro f hf heq
        exact hnodup.1 (List.mem_map.mpr ⟨f, hf, heq⟩)
      have hsame : Exchange.removeFile path ((path, c) :: files) = files := by
        rw [← removeFile_absent hrest]
        simp [Exchange.removeFile]
      rw [hsame, counted_cons, Int.add_comm]
    · have hlookup : files.lookup path = some b := by
        rw [List.lookup_cons, beq_false_of_ne hk] at h
        exact h
      have hsame : Exchange.removeFile path ((k, c) :: files) = (k, c) :: Exchange.removeFile path files := by
        simp [Exchange.removeFile, Ne.symm hk]
      have hrest := ih hnodup.2 hlookup
      rw [hsame, counted_cons, counted_cons]
      omega

end

/-- The two gauges that are checked before an event is kept. -/
def Gauge (m : SpoolMetric) : Prop := m = .spoolUsed ∨ m = .spoolCount

theorem not_gauge_diskErrors : ¬ Gauge .diskErrors := by simp [Gauge]

theorem not_gauge_exportErrors : ¬ Gauge .exportErrors := by simp [Gauge]

/-- How far the persister has come with an event. -/
inductive Phase where
  | asked
  | roomy
  | ready
  | written
  | counting
  | finished
deriving DecidableEq

/-- The file that the persister is to write. -/
structure Keeping where
  file : String × Bytes
  phase : Phase

/-- What is there and not yet counted. -/
def Keeping.uncounted (k : Keeping) (m : SpoolMetric) : Int :=
  match k.phase, m with
  | .written, _ => weigh m k.file
  | .counting, .spoolCount => weigh .spoolCount k.file
  | _, _ => 0

/-- What has been allowed and is not yet there. -/
def Keeping.reserved (k : Keeping) (m : SpoolMetric) : Int :=
  match k.phase, m with
  | .roomy, .spoolUsed => weigh .spoolUsed k.file
  | .ready, _ => weigh m k.file
  | _, _ => 0

/-- The file has not been written. -/
def Keeping.Pending (k : Keeping) : Prop := k.phase = .asked ∨ k.phase = .roomy ∨ k.phase = .ready

def keepRules (spoolBytes : Int) : Monitor SpoolOp SpoolAns Keeping where
  may _ _ _ := True
  ok k o := match k.phase, o with
    | .asked, .load .spoolUsed => True
    | .roomy, .load .spoolCount => True
    | .ready, .atomicFile path b => (path, b) = k.file
    | .written, .add .spoolUsed n => n = k.file.2.length
    | .counting, .add .spoolCount n => n = 1
    | .finished, .add .diskErrors _ => True
    | .finished, .drop _ => True
    | _, _ => False
  next k o x := match o, x with
    | .load .spoolUsed, used =>
      { k with phase := if spoolBytes < wrap64 (used + k.file.2.length) then .finished else .roomy }
    | .load .spoolCount, count => { k with phase := if 10000 ≤ count then .finished else .ready }
    | .atomicFile _ _, ok => { k with phase := if ok then .written else .finished }
    | .add .spoolUsed _, _ => { k with phase := .counting }
    | .add .spoolCount _, _ => { k with phase := .finished }
    | _, _ => k

/-- What the deliverer has still to take from the gauges. -/
inductive Owed where
  | nothing
  | both (path : String)
  | count

/-- The files that the deliverer has read, with their sizes. -/
structure Sending where
  known : List (String × Int) := []
  owed : Owed := .nothing

def sendRules : Monitor SpoolOp SpoolAns Sending where
  may _ _ _ := True
  ok d o := match d.owed, o with
    | .nothing, .readFile path => isSpoolFile path = true
    | .nothing, .remove path => ∃ n, (path, n) ∈ d.known
    | .nothing, .add m _ => ¬ Gauge m
    | .nothing, .atomicFile _ _ => False
    | .nothing, .load _ => False
    | .nothing, _ => True
    | .both path, .add .spoolUsed n => (path, -n) ∈ d.known
    | .count, .add .spoolCount n => n = -1
    | _, _ => False
  next d o x := match o, x with
    | .readFile path, some b => { d with known := d.known ++ [(path, (b.length : Int))] }
    | .remove path, true => { d with owed := .both path }
    | .add .spoolUsed _, _ => { d with owed := .count }
    | .add .spoolCount _, _ => { d with owed := .nothing }
    | _, _ => d

/-- What is no longer there and still counted. -/
def Sending.owes (d : Sending) (written : List (String × Bytes)) (m : SpoolMetric) : Int :=
  match d.owed, m with
  | .both path, .spoolUsed => ((written.lookup path).map (fun b => (b.length : Int))).getD 0
  | .both _, .spoolCount => 1
  | .count, .spoolCount => 1
  | _, _ => 0

def limit (spoolBytes : Int) : SpoolMetric → Int
  | .spoolUsed => spoolBytes
  | _ => 10000

/-- The persister with an event, alone. -/
theorem wp_persist (spoolBytes : Int) (e : Gateway.Event) :
    (keepRules spoolBytes).wp (fun _ k => k.phase = .finished) (Telemetry.persist spoolBytes e)
      ⟨(e.id ++ ".json", e.bytes), .asked⟩ := by
  have hdrop : (keepRules spoolBytes).wp (fun _ k => k.phase = .finished) (Telemetry.drop e.id)
      ⟨(e.id ++ ".json", e.bytes), .finished⟩ := ⟨trivial, fun _ _ => rfl⟩
  simp only [Telemetry.persist, Telemetry.load, Telemetry.atomicFile, Telemetry.add, Prog.call_bind]
  refine ⟨trivial, fun used _ => ?_⟩
  dsimp only [keepRules]
  split
  · exact hdrop
  refine ⟨trivial, fun count _ => ?_⟩
  dsimp only
  split
  · exact hdrop
  refine ⟨rfl, fun ok _ => ?_⟩
  cases ok with
  | true => exact ⟨rfl, fun _ _ => ⟨rfl, fun _ _ => rfl⟩⟩
  | false => exact ⟨trivial, fun _ _ => hdrop⟩

theorem carries_sendRules :
    Carries sendRules (fun d => d.owed = .nothing) (fun d sp => (sp.path, sp.size) ∈ d.known) where
  quiet := by
    intro d o hd hq
    obtain ⟨known, owed⟩ := d
    obtain rfl : owed = .nothing := hd
    cases hq with
    | diskError n => exact ⟨not_gauge_diskErrors, fun _ _ => ⟨rfl, fun _ h => h⟩⟩
    | exportError n => exact ⟨not_gauge_exportErrors, fun _ _ => ⟨rfl, fun _ h => h⟩⟩
    | _ => exact ⟨trivial, fun _ _ => ⟨rfl, fun _ h => h⟩⟩
  read := by
    intro d path hd hjson
    obtain ⟨known, owed⟩ := d
    obtain rfl : owed = .nothing := hd
    refine ⟨hjson, fun x _ => ?_⟩
    cases x with
    | none => exact ⟨rfl, fun _ h => h⟩
    | some b => exact ⟨rfl, fun _ h => List.mem_append_left _ h⟩
  learn := by
    intro d path x sp hd hjson _ hsp
    cases x with
    | none => cases hsp
    | some b =>
      unfold spooledFile at hsp
      dsimp only at hsp
      split at hsp
      · cases hsp
      · obtain ⟨e, -, rfl⟩ := Option.map_eq_some_iff.mp hsp
        exact List.mem_append_right _ (List.mem_singleton_self _)
  single := by
    intro d sp hd _
    obtain ⟨known, owed⟩ := d
    obtain rfl : owed = .nothing := hd
    exact ⟨trivial, fun _ _ => ⟨rfl, fun _ h => h⟩⟩
  batch := by
    intro d batch hd _ _
    obtain ⟨known, owed⟩ := d
    obtain rfl : owed = .nothing := hd
    exact ⟨trivial, fun _ _ => ⟨rfl, fun _ h => h⟩⟩
  remove := by
    intro d sp hd hsp
    obtain ⟨known, owed⟩ := d
    obtain rfl : owed = .nothing := hd
    simp only [Telemetry.remove, Telemetry.removeFile, Telemetry.add, Prog.call_bind]
    refine ⟨⟨sp.size, hsp⟩, fun ok _ => ?_⟩
    cases ok with
    | true =>
      refine ⟨?_, fun _ _ => ⟨rfl, fun _ _ => ⟨rfl, fun _ h => h⟩⟩⟩
      show (sp.path, - -sp.size) ∈ known
      rwa [Int.neg_neg]
    | false => exact ⟨not_gauge_diskErrors, fun _ _ => ⟨rfl, fun _ h => h⟩⟩

/-- How the spool and its gauges stand to what the workers are doing. -/
structure Sound (spoolBytes : Int) (x : Exchange) (k : Keeping) (d : Sending) : Prop where
  names : (x.spool.map Prod.fst).Nodup
  written : ∀ f ∈ x.spool, f ∈ x.written
  once : ∀ f ∈ x.written, ∀ f' ∈ x.written, f.1 = f'.1 → f = f'
  file : isSpoolFile k.file.1 = true ∧ k.file.2.length < 2 ^ 48
  fresh : k.Pending → ∀ f ∈ x.written, f.1 ≠ k.file.1
  known : ∀ f ∈ d.known, isSpoolFile f.1 = true ∧ ∃ b, (f.1, b) ∈ x.written ∧ (b.length : Int) = f.2
  owed : ∀ path, d.owed = .both path → ∃ n, (path, n) ∈ d.known
  balance : ∀ m, Gauge m → x.metrics m + k.uncounted m = Exchange.counted x.spool m + d.owes x.written m
  bound : ∀ m, Gauge m →
    Exchange.counted x.spool m + d.owes x.written m + k.reserved m ≤ limit spoolBytes m

theorem lookup_of_mem {files : List (String × Bytes)} {path : String} {b : Bytes} (h : (path, b) ∈ files)
    (honce : ∀ f ∈ files, ∀ f' ∈ files, f.1 = f'.1 → f = f') : files.lookup path = some b := by
  obtain ⟨c, hc⟩ : ∃ c, files.lookup path = some c := by
    cases hlookup : files.lookup path with
    | some c => exact ⟨c, rfl⟩
    | none =>
      have hall := List.lookup_eq_none_iff.mp hlookup (path, b) h
      simp at hall
  have hmem := mem_of_lookup hc
  cases honce _ h _ hmem rfl
  exact hc

namespace Sound
variable {spoolBytes : Int} {x y : Exchange} {k : Keeping} {d : Sending}

/-- Nothing but the directory, its history and the two gauges matters. -/
theorem congr (h : Sound spoolBytes x k d) (hspool : y.spool = x.spool) (hwritten : y.written = x.written)
    (hmetrics : ∀ m, Gauge m → y.metrics m = x.metrics m) : Sound spoolBytes y k d where
  names := by rw [hspool]; exact h.names
  written := by rw [hspool, hwritten]; exact h.written
  once := by rw [hwritten]; exact h.once
  file := h.file
  fresh := by rw [hwritten]; exact h.fresh
  known := by rw [hwritten]; exact h.known
  owed := h.owed
  balance m hm := by rw [hspool, hwritten, hmetrics m hm]; exact h.balance m hm
  bound m hm := by rw [hspool, hwritten]; exact h.bound m hm

theorem counts_else (h : Sound spoolBytes x k d) {m : SpoolMetric} (hm : ¬ Gauge m) (n : Int) :
    Sound spoolBytes { x with metrics := Function.update x.metrics m n } k d := by
  refine h.congr rfl rfl (fun m' hm' => ?_)
  have hne : m' ≠ m := by
    rintro rfl
    exact hm hm'
  exact Function.update_of_ne hne _ _

theorem reserved_nonneg (k : Keeping) (m : SpoolMetric) : 0 ≤ k.reserved m := by
  unfold Keeping.reserved
  split
  · exact weigh_nonneg _ _
  · exact weigh_nonneg _ _
  · exact Int.le_refl 0

theorem counted_nonneg (files : List (String × Bytes)) (m : SpoolMetric) : 0 ≤ Exchange.counted files m := by
  induction files with
  | nil => cases m <;> exact Int.le_refl 0
  | cons f files ih =>
    rw [counted_cons]
    have := weigh_nonneg m f
    omega

theorem owes_nonneg (d : Sending) (files : List (String × Bytes)) (m : SpoolMetric) : 0 ≤ d.owes files m := by
  unfold Sending.owes
  split
  · cases files.lookup _ with
    | none => exact Int.le_refl 0
    | some b => exact Int.natCast_nonneg _
  all_goals omega

theorem owes_nothing (hd : d.owed = .nothing) (files : List (String × Bytes)) (m : SpoolMetric) :
    d.owes files m = 0 := by
  obtain ⟨known, owed⟩ := d
  obtain rfl : owed = .nothing := hd
  rfl

/-- The persister goes on without touching anything. -/
theorem rephase (h : Sound spoolBytes x k d) (p : Phase) (hpending : Keeping.Pending ⟨k.file, p⟩ → k.Pending)
    (huncounted : ∀ m, Gauge m → Keeping.uncounted ⟨k.file, p⟩ m = k.uncounted m)
    (hbound : ∀ m, Gauge m → Exchange.counted x.spool m + d.owes x.written m +
      Keeping.reserved ⟨k.file, p⟩ m ≤ limit spoolBytes m) : Sound spoolBytes x ⟨k.file, p⟩ d :=
  { h with
    fresh := fun hp => h.fresh (hpending hp)
    balance := fun m hm => by rw [huncounted m hm]; exact h.balance m hm
    bound := hbound }

/-- Nothing is left to do for an event of which nothing is uncounted. -/
theorem gives_up (h : Sound spoolBytes x k d) (hk : ∀ m, Gauge m → k.uncounted m = 0) :
    Sound spoolBytes x ⟨k.file, .finished⟩ d := by
  apply h.rephase .finished
  · rintro (hp | hp | hp) <;> cases hp
  · intro m hm
    rw [hk m hm]
    rfl
  · intro m hm
    have hbound := h.bound m hm
    have hnonneg := reserved_nonneg k m
    show _ + _ + 0 ≤ _
    omega

/-- The persister takes up an event that has no file. -/
theorem takes (h : Sound spoolBytes x k d) (hk : k.phase = .finished) {e : Gateway.Event}
    (hlen : e.bytes.length < 2 ^ 48) (hfresh : ∀ f ∈ x.written, f.1 ≠ e.id ++ ".json") :
    Sound spoolBytes x ⟨(e.id ++ ".json", e.bytes), .asked⟩ d := by
  obtain ⟨f, phase⟩ := k
  obtain rfl : phase = .finished := hk
  exact { h with
    file := ⟨isSpoolFile_append e.id, hlen⟩
    fresh := fun _ => hfresh
    balance := h.balance
    bound := h.bound }

theorem loads_used {f : String × Bytes} (hlimit : spoolBytes ≤ 10737418240)
    (h : Sound spoolBytes x ⟨f, .asked⟩ d) :
    Sound spoolBytes x ⟨f, if spoolBytes < wrap64 (x.metrics .spoolUsed + f.2.length) then .finished else .roomy⟩ d := by
  split
  · exact h.gives_up (fun _ _ => rfl)
  rename_i hroom
  apply h.rephase .roomy
  · intro _
    exact .inl rfl
  · intro m _
    cases m <;> rfl
  · rintro m (rfl | rfl)
    · have hbalance := h.balance .spoolUsed (.inl rfl)
      have hbound := h.bound .spoolUsed (.inl rfl)
      have hsize := h.file.2
      have hcounted := counted_nonneg x.spool .spoolUsed
      have howes := owes_nonneg d x.written .spoolUsed
      have hweigh : weigh .spoolUsed f = f.2.length := by
        rw [weigh, if_pos h.file.1]
      simp only [Keeping.uncounted, Keeping.reserved, limit, wrap64] at hbalance hbound hroom hsize ⊢
      omega
    · exact h.bound .spoolCount (.inr rfl)

theorem loads_count {f : String × Bytes} (h : Sound spoolBytes x ⟨f, .roomy⟩ d) :
    Sound spoolBytes x ⟨f, if 10000 ≤ x.metrics .spoolCount then .finished else .ready⟩ d := by
  split
  · apply h.gives_up
    rintro m (rfl | rfl) <;> rfl
  rename_i hroom
  apply h.rephase .ready
  · intro _
    exact .inr (.inl rfl)
  · rintro m (rfl | rfl) <;> rfl
  · rintro m (rfl | rfl)
    · exact h.bound .spoolUsed (.inl rfl)
    · have hbalance := h.balance .spoolCount (.inr rfl)
      have hweigh : weigh .spoolCount f = 1 := by
        rw [weigh, if_pos h.file.1]
      simp only [Keeping.uncounted, Keeping.reserved, limit] at hbalance ⊢
      omega

theorem owes_append (h : Sound spoolBytes x k d) (f : String × Bytes) (m : SpoolMetric) :
    d.owes (x.written ++ [f]) m = d.owes x.written m := by
  cases howed : d.owed with
  | nothing => simp [Sending.owes, howed]
  | count => cases m <;> simp [Sending.owes, howed]
  | both path =>
    obtain ⟨n, hn⟩ := h.owed path howed
    obtain ⟨-, b, hb, -⟩ := h.known _ hn
    have hold := lookup_of_mem hb h.once
    have hnew : (x.written ++ [f]).lookup path = some b := by rw [List.lookup_append, hold, Option.some_or]
    cases m <;> simp [Sending.owes, howed, hold, hnew]

/-- The file is there, and nothing has been added to the gauges. -/
theorem writes {f : String × Bytes} (h : Sound spoolBytes x ⟨f, .ready⟩ d) :
    Sound spoolBytes (x.put f.1 f.2) ⟨f, .written⟩ d := by
  have hfresh := h.fresh (.inr (.inr rfl))
  have habsent : ∀ g ∈ x.spool, g.1 ≠ f.1 := fun g hg => hfresh g (h.written g hg)
  have hspool : (x.put f.1 f.2).spool = f :: x.spool := by
    show Exchange.setFile f.1 f.2 x.spool = _
    rw [Exchange.setFile]
    exact congrArg _ (removeFile_absent habsent)
  have hcounted (m : SpoolMetric) : Exchange.counted (x.put f.1 f.2).spool m =
      Exchange.counted x.spool m + weigh m f := counted_setFile habsent m
  have howes (m : SpoolMetric) : d.owes (x.put f.1 f.2).written m = d.owes x.written m := h.owes_append f m
  have hmem {g : String × Bytes} : g ∈ (x.put f.1 f.2).written ↔ g ∈ x.written ∨ g = f := by
    simp [Exchange.put]
  refine ⟨?_, ?_, ?_, h.file, ?_, ?_, h.owed, ?_, ?_⟩
  · rw [hspool, List.map_cons, List.nodup_cons]
    refine ⟨fun hin => ?_, h.names⟩
    obtain ⟨g, hg, heq⟩ := List.mem_map.mp hin
    exact habsent g hg heq
  · intro g hg
    rw [hspool] at hg
    rcases List.mem_cons.mp hg with rfl | hg
    · exact hmem.mpr (.inr rfl)
    · exact hmem.mpr (.inl (h.written g hg))
  · intro g hg g' hg' heq
    rcases hmem.mp hg with hold | hnew
    · rcases hmem.mp hg' with hold' | hnew'
      · exact h.once g hold g' hold' heq
      · rw [hnew'] at heq
        exact absurd heq (hfresh g hold)
    · rcases hmem.mp hg' with hold' | hnew'
      · rw [hnew] at heq
        exact absurd heq.symm (hfresh g' hold')
      · rw [hnew, hnew']
  · rintro (hp | hp | hp) <;> cases hp
  · intro g hg
    obtain ⟨hjson, b, hb, hlen⟩ := h.known g hg
    exact ⟨hjson, b, hmem.mpr (.inl hb), hlen⟩
  · intro m hm
    have hbalance := h.balance m hm
    have huncounted : Keeping.uncounted ⟨f, .ready⟩ m = 0 := by cases m <;> rfl
    rw [hcounted, howes]
    rw [huncounted] at hbalance
    show x.metrics m + weigh m f = _
    omega
  · intro m hm
    have hbound := h.bound m hm
    have hreserved : Keeping.reserved ⟨f, .ready⟩ m = weigh m f := by cases m <;> rfl
    rw [hcounted, howes]
    rw [hreserved] at hbound
    have hnone : Keeping.reserved ⟨f, .written⟩ m = 0 := by cases m <;> rfl
    omega

/-- A gauge is set while nothing in the directory changes. -/
theorem adjusts {k' : Keeping} {d' : Sending} (h : Sound spoolBytes x k d) (m : SpoolMetric) (n : Int)
    (hfile : k'.file = k.file) (hpending : k'.Pending → k.Pending) (hknown : d'.known = d.known)
    (howed : ∀ path, d'.owed = .both path → d.owed = .both path)
    (hbalance : ∀ m', Gauge m' → (if m' = m then n else 0) + k'.uncounted m' + d.owes x.written m' =
      k.uncounted m' + d'.owes x.written m')
    (hbound : ∀ m', Gauge m' → d'.owes x.written m' + k'.reserved m' ≤ d.owes x.written m' + k.reserved m') :
    Sound spoolBytes { x with metrics := Function.update x.metrics m (x.metrics m + n) } k' d' where
  names := h.names
  written := h.written
  once := h.once
  file := by rw [hfile]; exact h.file
  fresh hp := by rw [hfile]; exact h.fresh (hpending hp)
  known := by rw [hknown]; exact h.known
  owed path hp := by rw [hknown]; exact h.owed path (howed path hp)
  balance m' hm' := by
    have hold := h.balance m' hm'
    have hnew := hbalance m' hm'
    dsimp only
    by_cases heq : m' = m
    · subst heq
      rw [if_pos rfl] at hnew
      rw [Function.update_self]
      omega
    · rw [if_neg heq] at hnew
      rw [Function.update_of_ne heq]
      omega
  bound m' hm' := by
    have hold := h.bound m' hm'
    have hnew := hbound m' hm'
    dsimp only
    omega

theorem counts_used {f : String × Bytes} (h : Sound spoolBytes x ⟨f, .written⟩ d) :
    Sound spoolBytes { x with metrics := Function.update x.metrics .spoolUsed (x.metrics .spoolUsed + f.2.length) }
      ⟨f, .counting⟩ d := by
  have hweigh : weigh .spoolUsed f = f.2.length := by
    rw [weigh, if_pos h.file.1]
  apply h.adjusts .spoolUsed f.2.length
  · rfl
  · rintro (hp | hp | hp) <;> cases hp
  · rfl
  · exact fun _ hp => hp
  · rintro m (rfl | rfl)
    · simp [Keeping.uncounted, hweigh]
    · simp [Keeping.uncounted]
  · rintro m (rfl | rfl) <;> exact Int.le_refl _

theorem counts_one {f : String × Bytes} (h : Sound spoolBytes x ⟨f, .counting⟩ d) :
    Sound spoolBytes { x with metrics := Function.update x.metrics .spoolCount (x.metrics .spoolCount + 1) }
      ⟨f, .finished⟩ d := by
  have hweigh : weigh .spoolCount f = 1 := by
    rw [weigh, if_pos h.file.1]
  apply h.adjusts .spoolCount 1
  · rfl
  · rintro (hp | hp | hp) <;> cases hp
  · rfl
  · exact fun _ hp => hp
  · rintro m (rfl | rfl)
    · simp [Keeping.uncounted]
    · simp [Keeping.uncounted, hweigh]
  · rintro m (rfl | rfl) <;> exact Int.le_refl _

theorem reads {path : String} {b : Bytes} (h : Sound spoolBytes x k d) (hjson : isSpoolFile path = true)
    (hfile : x.spool.lookup path = some b) :
    Sound spoolBytes x k { d with known := d.known ++ [(path, (b.length : Int))] } :=
  { h with
    known := fun f hf => by
      rcases List.mem_append.mp hf with hold | hnew
      · exact h.known f hold
      · rw [List.mem_singleton.mp hnew]
        exact ⟨hjson, b, h.written _ (mem_of_lookup hfile), rfl⟩
    owed := fun p hp => by
      obtain ⟨n, hn⟩ := h.owed p hp
      exact ⟨n, List.mem_append_left _ hn⟩ }

/-- The file is gone, and nothing has been taken from the gauges. -/
theorem removes {path : String} {b : Bytes} {n : Int} (h : Sound spoolBytes x k d) (hd : d.owed = .nothing)
    (hknown : (path, n) ∈ d.known) (hfile : x.spool.lookup path = some b) :
    Sound spoolBytes { x with spool := Exchange.removeFile path x.spool } k { d with owed := .both path } := by
  obtain ⟨hjson, -⟩ := h.known _ hknown
  have hmem := h.written _ (mem_of_lookup hfile)
  have hlookup := lookup_of_mem hmem h.once
  have hmoved (m : SpoolMetric) (hm : Gauge m) :
      Exchange.counted (Exchange.removeFile path x.spool) m + Sending.owes { d with owed := .both path } x.written m =
        Exchange.counted x.spool m + d.owes x.written m := by
    have hcounted := counted_removeFile h.names hfile m
    rw [← hcounted]
    rcases hm with rfl | rfl
    · simp [Sending.owes, hd, hlookup, weigh, hjson]
    · simp [Sending.owes, hd, weigh, hjson]
  refine ⟨?_, ?_, h.once, h.file, h.fresh, h.known, ?_, ?_, ?_⟩
  · exact h.names.sublist (List.filter_sublist.map _)
  · intro f hf
    exact h.written f (List.mem_of_mem_filter hf)
  · intro p hp
    cases hp
    exact ⟨n, hknown⟩
  · intro m hm
    have hbalance := h.balance m hm
    have hsame := hmoved m hm
    dsimp only at hsame ⊢
    omega
  · intro m hm
    have hbound := h.bound m hm
    have hsame := hmoved m hm
    dsimp only at hsame ⊢
    omega

theorem uncounts_used {path : String} {n : Int} (h : Sound spoolBytes x k d) (hd : d.owed = .both path)
    (hknown : (path, -n) ∈ d.known) :
    Sound spoolBytes { x with metrics := Function.update x.metrics .spoolUsed (x.metrics .spoolUsed + n) } k
      { d with owed := .count } := by
  obtain ⟨-, b, hb, hlen⟩ := h.known _ hknown
  have hlookup := lookup_of_mem hb h.once
  dsimp only at hlookup hlen
  apply h.adjusts .spoolUsed n
  · rfl
  · exact fun hp => hp
  · rfl
  · intro _ hp
    cases hp
  · rintro m (rfl | rfl)
    · simp [Sending.owes, hd, hlookup]
      omega
    · simp [Sending.owes, hd]
  · rintro m (rfl | rfl)
    · simp [Sending.owes, hd, hlookup] <;> omega
    · simp [Sending.owes, hd]

theorem uncounts_one (h : Sound spoolBytes x k d) (hd : d.owed = .count) :
    Sound spoolBytes { x with metrics := Function.update x.metrics .spoolCount (x.metrics .spoolCount + -1) } k
      { d with owed := .nothing } := by
  apply h.adjusts .spoolCount (-1)
  · rfl
  · exact fun hp => hp
  · rfl
  · intro _ hp
    cases hp
  · rintro m (rfl | rfl)
    · simp [Sending.owes, hd]
    · simp [Sending.owes, hd] <;> omega
  · rintro m (rfl | rfl)
    · simp [Sending.owes, hd]
    · simp [Sending.owes, hd] <;> omega

end Sound

section
variable {spoolBytes : Int} {x x' : Exchange} {k : Keeping} {d : Sending} {o : SpoolOp} {a : SpoolAns o}

/-- One step of the persister. -/
theorem keeps_step (hlimit : spoolBytes ≤ 10737418240) (h : Sound spoolBytes x k d)
    (hok : (keepRules spoolBytes).ok k o) (hs : (spooling spoolBytes).step x o a x') :
    Sound spoolBytes x' ((keepRules spoolBytes).next k o a) d := by
  obtain ⟨ch, hworks, hperform⟩ := hs
  obtain ⟨f, phase⟩ := k
  dsimp only [keepRules] at hok
  split at hok
  · cases hperform
    exact h.loads_used hlimit
  · cases hperform
    exact h.loads_count
  · obtain rfl : ch = .flag true := hworks
    cases hok
    cases hperform
    exact h.writes
  · subst hok
    cases hperform
    exact h.counts_used
  · subst hok
    cases hperform
    exact h.counts_one
  · cases hperform
    exact h.counts_else not_gauge_diskErrors _
  · cases hperform
    exact h.congr rfl rfl (fun _ _ => rfl)
  · cases hok

/-- What happens to a request touches neither the spool nor its gauges. -/
theorem post_elsewhere {path : String} {body : Bytes} {fate : Fate} {r : Option Telemetry.Reply}
    (hs : x.post path body fate = some (r, x')) (h : Sound spoolBytes x k d) : Sound spoolBytes x' k d := by
  cases fate with
  | served v =>
    cases hs
    exact h.congr rfl rfl (fun _ _ => rfl)
  | failed r =>
    unfold Exchange.post at hs
    dsimp only at hs
    split at hs
    · cases hs
    · cases hs
      exact h
  | unanswered =>
    cases hs
    exact h.congr rfl rfl (fun _ _ => rfl)

/-- One step of the deliverer. -/
theorem sends_step (h : Sound spoolBytes x k d) (hok : sendRules.ok d o)
    (hs : (spooling spoolBytes).step x o a x') : Sound spoolBytes x' k (sendRules.next d o a) := by
  obtain ⟨ch, hworks, hperform⟩ := hs
  obtain ⟨known, owed⟩ := d
  dsimp only [sendRules] at hok
  split at hok
  · obtain rfl : ch = .flag true := hworks
    rename_i path
    cases hperform
    rw [if_pos rfl]
    cases hfile : x.spool.lookup path with
    | none => exact h
    | some b => exact h.reads hok hfile
  · obtain rfl : ch = .flag true := hworks
    rename_i path
    obtain ⟨n, hn⟩ := hok
    unfold Exchange.perform at hperform
    dsimp only at hperform
    cases hfile : x.spool.lookup path with
    | none =>
      simp only [hfile, Option.isSome_none, Bool.and_false, Bool.false_eq_true, if_false] at hperform
      cases hperform
      exact h
    | some b =>
      simp only [hfile, Option.isSome_some, Bool.and_true, if_true] at hperform
      cases hperform
      exact h.removes rfl hn hfile
  · cases hperform
    rename_i m n
    cases m with
    | spoolUsed => exact absurd (.inl rfl) hok
    | spoolCount => exact absurd (.inr rfl) hok
    | diskErrors => exact h.counts_else not_gauge_diskErrors _
    | exportErrors => exact h.counts_else not_gauge_exportErrors _
  · cases hok
  · cases hok
  · rename_i hread hremove hadd hwrite hload
    cases o with
    | readDir =>
      obtain rfl : ch = .flag true := hworks
      cases hperform
      exact h
    | post path body =>
      cases ch with
      | fate fate => exact post_elsewhere hperform h
      | _ => cases hperform
    | drop id =>
      cases hperform
      exact h.congr rfl rfl (fun _ _ => rfl)
    | perEvent =>
      cases hperform
      exact h
    | fallBack =>
      cases hperform
      exact h.congr rfl rfl (fun _ _ => rfl)
    | cancelled =>
      cases ch with
      | flag b =>
        cases hperform
        exact h
      | _ => cases hperform
    | readFile path => exact absurd rfl (hread path)
    | remove path => exact absurd rfl (hremove path)
    | add m n => exact absurd rfl (hadd m n)
    | atomicFile path b => exact absurd rfl (hwrite path b)
    | load m => exact absurd rfl (hload m)
  · rename_i path n
    cases hperform
    exact h.uncounts_used rfl hok
  · subst hok
    cases hperform
    exact h.uncounts_one rfl
  · cases hok

end

/-- The bookkeeping of each worker. -/
def Book : Worker → Type
  | .persister => Keeping
  | .deliverer => Sending

def rules (spoolBytes : Int) : (w : Worker) → Monitor SpoolOp SpoolAns (Book w)
  | .persister => keepRules spoolBytes
  | .deliverer => sendRules

/-- A worker between two programs. -/
def Idle : (w : Worker) → Book w → Prop
  | .persister, k => k.phase = .finished
  | .deliverer, d => d.owed = .nothing

def Books (spoolBytes : Int) (x : Exchange) (g : (w : Worker) → Book w) : Prop :=
  Sound spoolBytes x (g .persister) (g .deliverer)

/-- The books of a process that starts. -/
def blank : (w : Worker) → Book w
  | .persister => ⟨(".json", []), .finished⟩
  | .deliverer => {}

theorem sound_start {spoolBytes : Int} {x : Exchange} (hnames : (x.spool.map Prod.fst).Nodup)
    (hwritten : ∀ f ∈ x.spool, f ∈ x.written) (honce : ∀ f ∈ x.written, ∀ f' ∈ x.written, f.1 = f'.1 → f = f')
    (hcounted : x.metrics = Exchange.counted x.spool)
    (hbound : ∀ m, Gauge m → Exchange.counted x.spool m ≤ limit spoolBytes m) : Books spoolBytes x blank where
  names := hnames
  written := hwritten
  once := honce
  file := by decide
  fresh := by rintro (hp | hp | hp) <;> cases hp
  known f hf := nomatch hf
  owed path hp := nomatch hp
  balance m hm := by
    rw [hcounted]
    rfl
  bound m hm := by
    have hnothing := hbound m hm
    show _ + 0 + 0 ≤ _
    omega

theorem safe_spooling {spoolBytes : Int} (hlimit : spoolBytes ≤ 10737418240) :
    Workers.Safe (spooling spoolBytes) (rules spoolBytes) Idle (Books spoolBytes) where
  step x g w o a x' h hok hs := by
    cases w with
    | persister => exact ⟨trivial, keeps_step hlimit h hok hs⟩
    | deliverer => exact ⟨trivial, sends_step h hok hs⟩
  takes x g w p h hidle ht := by
    cases w with
    | persister =>
      obtain ⟨e, rfl, hlen, hfresh⟩ := ht
      exact ⟨⟨(e.id ++ ".json", e.bytes), .asked⟩, Sound.takes h hidle hlen hfresh, wp_persist spoolBytes e⟩
    | deliverer =>
      obtain rfl : p = Telemetry.deliver := ht
      refine ⟨g .deliverer, ?_, carries_sendRules.deliver hidle⟩
      rw [Function.update_eq_self]
      exact h
  env x g x' h he := by
    obtain ⟨n, v, hchange⟩ := he
    unfold Exchange.change at hchange
    dsimp only at hchange
    split at hchange
    · cases hchange
    · cases hchange
      exact h.congr rfl rfl (fun _ _ => rfl)
  restart x g x' h hr := by
    cases hr
    refine ⟨blank, ?_, fun w => by cases w <;> rfl⟩
    refine @sound_start spoolBytes _ h.names h.written h.once rfl (fun m hm => ?_)
    have hbound := h.bound m hm
    have howes := Sound.owes_nonneg (g .deliverer) x.written m
    have hreserved := Sound.reserved_nonneg (g .persister) m
    dsimp only
    omega

/-- The next thing a worker does is to set one of the gauges. -/
def Settling : S Unit → Prop
  | .op (.add .spoolUsed _) _ => True
  | .op (.add .spoolCount _) _ => True
  | _ => False

theorem nothing_uncounted {spoolBytes : Int} {k : Keeping} {p : S Unit}
    (hwp : (keepRules spoolBytes).wp (fun _ k => k.phase = .finished) p k) (hp : ¬ Settling p) (m : SpoolMetric) :
    k.uncounted m = 0 := by
  obtain ⟨f, phase⟩ := k
  cases p with
  | ret a =>
    obtain rfl : phase = .finished := hwp
    cases m <;> rfl
  | op o q =>
    have hok := hwp.1
    dsimp only [keepRules] at hok
    split at hok
    · cases m <;> rfl
    · cases m <;> rfl
    · cases m <;> rfl
    · exact absurd trivial hp
    · exact absurd trivial hp
    · cases m <;> rfl
    · cases m <;> rfl
    · cases hok

theorem nothing_owed {d : Sending} {p : S Unit} (hwp : sendRules.wp (fun _ d => d.owed = .nothing) p d)
    (hp : ¬ Settling p) : d.owed = .nothing := by
  obtain ⟨known, owed⟩ := d
  cases p with
  | ret a => exact hwp
  | op o q =>
    have hok := hwp.1
    cases owed with
    | nothing => rfl
    | both path =>
      dsimp only [sendRules] at hok
      split at hok
      all_goals first | contradiction | exact absurd trivial hp
    | count =>
      dsimp only [sendRules] at hok
      split at hok
      all_goals first | contradiction | exact absurd trivial hp

/-- From a start within the limits, the spool stays within them. Whenever neither worker is
about to set a gauge, the gauges say what is there. -/
theorem spool_within_limits {lib : Lib} {c : Config} (hvalid : c.validate lib = .ok ()) {x : Exchange}
    (hnames : (x.spool.map Prod.fst).Nodup) (hwritten : x.written = x.spool)
    (hcounted : x.metrics = Exchange.counted x.spool)
    (hbytes : Exchange.counted x.spool .spoolUsed ≤ c.spoolBytes)
    (hfiles : Exchange.counted x.spool .spoolCount ≤ 10000)
    {s : Workers.Shift SpoolOp SpoolAns Exchange Worker} (hr : (spooling c.spoolBytes).Reaches (.idle x) s) :
    Exchange.counted s.state.spool .spoolUsed ≤ c.spoolBytes ∧
      Exchange.counted s.state.spool .spoolCount ≤ 10000 ∧
      ((∀ w, ¬ Settling (s.prog w)) →
        s.state.metrics .spoolUsed = Exchange.counted s.state.spool .spoolUsed ∧
          s.state.metrics .spoolCount = Exchange.counted s.state.spool .spoolCount) := by
  have hlimit : c.spoolBytes ≤ 10737418240 := by
    have hall := (valid_of_validate hvalid).limits ⟨"spool_bytes", c.spoolBytes, 1048576, 10737418240⟩
    exact (hall (by simp [Config.limits])).2
  have hstart : Books c.spoolBytes x blank := by
    apply sound_start hnames (by rw [hwritten]; exact fun f hf => hf) _ hcounted
    · rintro m (rfl | rfl)
      · exact hbytes
      · exact hfiles
    · rw [hwritten]
      intro f hf f' hf' heq
      exact List.inj_on_of_nodup_map hnames hf hf' heq
  obtain ⟨g, hbooks, hwp⟩ := (safe_spooling hlimit).invariant hstart (fun w => by cases w <;> rfl) hr
  have hbound (m : SpoolMetric) (hm : Gauge m) : Exchange.counted s.state.spool m ≤ limit c.spoolBytes m := by
    have hall := hbooks.bound m hm
    have howes := Sound.owes_nonneg (g .deliverer) s.state.written m
    have hreserved := Sound.reserved_nonneg (g .persister) m
    omega
  refine ⟨hbound .spoolUsed (.inl rfl), hbound .spoolCount (.inr rfl), fun hquiet => ?_⟩
  have huncounted := nothing_uncounted (hwp .persister) (hquiet .persister)
  have howed : Sending.owed (g .deliverer) = .nothing := nothing_owed (hwp .deliverer) (hquiet .deliverer)
  have hequal (m : SpoolMetric) (hm : Gauge m) : s.state.metrics m = Exchange.counted s.state.spool m := by
    have hbalance := hbooks.balance m hm
    rw [huncounted m, Sound.owes_nothing howed] at hbalance
    omega
  exact ⟨hequal .spoolUsed (.inl rfl), hequal .spoolCount (.inr rfl)⟩

/-- Everything works, and no request is answered. -/
def works : SpoolOp → SpoolChance
  | .post _ _ => .fate .unanswered
  | .cancelled => .flag false
  | _ => .flag true

theorem works_works (o : SpoolOp) : SpoolChance.Works o (works o) := by
  cases o with
  | _ => first | rfl | trivial

def small : Gateway.Event := { id := "a" }

/-- The persister has an event to keep. -/
def given : Workers.Shift SpoolOp SpoolAns Exchange Worker :=
  ⟨{}, Function.update (fun _ => .ret ()) .persister (Telemetry.persist plainConfig.spoolBytes small)⟩

theorem given_reached : (spooling plainConfig.spoolBytes).Reaches (.idle {}) given := by
  have htakes : (spooling plainConfig.spoolBytes).takes .persister {}
      (Telemetry.persist plainConfig.spoolBytes small) := ⟨small, rfl, by decide +kernel, fun f hf => nomatch hf⟩
  have hmove : (spooling plainConfig.spoolBytes).Move (.idle {}) given :=
    .take (.idle ({} : Exchange)) Worker.persister (Telemetry.persist plainConfig.spoolBytes small) rfl htakes
  exact .single hmove

theorem spool_within_limits_one :
    ∃ x', Controlplane.exchange.exec works (given.prog .persister) {} = some ((), x') ∧
      Exchange.counted x'.spool .spoolCount ≤ 10000 ∧
      x'.metrics .spoolUsed = Exchange.counted x'.spool .spoolUsed := by
  have hvalid : plainConfig.validate plainServer.lib = .ok () := by decide
  have hruns : (Controlplane.exchange.exec works (given.prog .persister) {}).isSome = true := by
    decide +kernel
  obtain ⟨⟨_, x'⟩, hexec⟩ := Option.isSome_iff_exists.mp hruns
  have hwork := Workers.reaches_exec (W := spooling plainConfig.spoolBytes)
    (fun s o x s' hs => ⟨works o, works_works o, hs⟩) .persister hexec
  obtain ⟨-, hcount, hequal⟩ := spool_within_limits (x := {}) hvalid List.nodup_nil rfl (funext (fun m => by cases m <;> rfl))
    (by decide) (by decide) (given_reached.trans hwork)
  refine ⟨x', hexec, hcount, (hequal (fun w => ?_)).1⟩
  cases w with
  | persister => simp [Settling]
  | deliverer => simp [Settling, given]

end Switchboard.Proofs.Spool
