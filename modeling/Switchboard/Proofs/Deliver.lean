import Switchboard.Gateway.Telemetry

namespace Switchboard.Proofs.Deliver
open Text Gateway
open Effect (Monitor Prog)
open Gateway.Telemetry

/-- Operations of a delivery that touch neither files nor the control plane nor the gauges. -/
inductive Quiet : SpoolOp → Prop where
  | readDir : Quiet .readDir
  | diskError (n : Int) : Quiet (.add .diskErrors n)
  | exportError (n : Int) : Quiet (.add .exportErrors n)
  | drop (id : String) : Quiet (.drop id)
  | perEvent : Quiet .perEvent
  | fallBack : Quiet .fallBack
  | cancelled : Quiet .cancelled

/-- The bytes of the events of a batch. -/
def batchSize (batch : List Spooled) : Nat := (batch.map (fun sp => sp.event.length)).sum

/-- A batch as it is sent: it was still below both limits before its last file. -/
structure Full (batch : List Spooled) : Prop where
  some : 0 < batch.length
  count : batch.length ≤ 200
  last : ∃ sp ∈ batch, batchSize batch < 57344 + sp.event.length

/-- A batch that takes more files. -/
structure Open (batch : List Spooled) : Prop where
  count : batch.length < 200
  bytes : batchSize batch < 57344

theorem Open.full {batch : List Spooled} (h : Open batch) (hne : batch ≠ []) : Full batch := by
  obtain ⟨sp, hsp⟩ := List.exists_mem_of_ne_nil batch hne
  exact ⟨List.length_pos_of_ne_nil hne, by have := h.count; omega, sp, hsp, by have := h.bytes; omega⟩

theorem open_nil : Open [] := ⟨by simp, by simp [batchSize]⟩

theorem batchSize_snoc (batch : List Spooled) (sp : Spooled) :
    batchSize (batch ++ [sp]) = batchSize batch + sp.event.length := by
  simp [batchSize]

theorem Open.snoc {batch : List Spooled} (h : Open batch) (sp : Spooled) : Full (batch ++ [sp]) := by
  have hcount := h.count
  have hbytes := h.bytes
  refine ⟨by simp, by simp; omega, sp, by simp, ?_⟩
  rw [batchSize_snoc]
  omega

variable {γ : Type}

/-- After an operation from `g`, the bookkeeping is sound and knows no less. -/
def Keeps (G : Monitor SpoolOp SpoolAns γ) (I : γ → Prop) (K : γ → Spooled → Prop) (g : γ) (o : SpoolOp) : Prop :=
  G.ok g o ∧ ∀ x, G.may g o x → I (G.next g o x) ∧ ∀ sp, K g sp → K (G.next g o x) sp

/-- What a monitor must allow, so that a delivery keeps its rules: `I` is the invariant of its
bookkeeping, and `K` is what it knows of the files that have been read. -/
structure Carries (G : Monitor SpoolOp SpoolAns γ) (I : γ → Prop) (K : γ → Spooled → Prop) : Prop where
  quiet : ∀ g o, I g → Quiet o → Keeps G I K g o
  read : ∀ g path, I g → ".json".toList.isSuffixOf path.toList = true → Keeps G I K g (.readFile path)
  learn : ∀ g path x sp, I g → ".json".toList.isSuffixOf path.toList = true → G.may g (.readFile path) x →
    spooledFile path x = some sp → K (G.next g (.readFile path) x) sp
  single : ∀ g sp, I g → K g sp → Keeps G I K g (.post "/v1/telemetry" sp.event)
  batch : ∀ g batch, I g → (∀ sp ∈ batch, K g sp) → Full batch →
    Keeps G I K g (.post "/v1/telemetry/batch" (batchBody batch))
  remove : ∀ g sp, I g → K g sp →
    G.wp (fun _ g' => I g' ∧ ∀ sp, K g sp → K g' sp) (Telemetry.remove sp) g

namespace Carries
variable {G : Monitor SpoolOp SpoolAns γ} {I : γ → Prop} {K : γ → Spooled → Prop} {g : γ}

/-- The invariant holds, and all of `batch` is known. -/
def Knows (I : γ → Prop) (K : γ → Spooled → Prop) (batch : List Spooled) (g : γ) : Prop :=
  I g ∧ ∀ sp ∈ batch, K g sp

theorem Knows.tail {sp : Spooled} {batch : List Spooled} (h : Knows I K (sp :: batch) g) : Knows I K batch g :=
  ⟨h.1, fun sp' hsp => h.2 sp' (List.mem_cons_of_mem _ hsp)⟩

theorem Knows.next {batch : List Spooled} {o : SpoolOp} {x : SpoolAns o} (h : Knows I K batch g)
    (hk : Keeps G I K g o) (hm : G.may g o x) : Knows I K batch (G.next g o x) :=
  ⟨(hk.2 x hm).1, fun sp hsp => (hk.2 x hm).2 sp (h.2 sp hsp)⟩

/-- One operation and what follows it. -/
theorem wp_keeps {α : Type} {Q : α → γ → Prop} {o : SpoolOp} {f : SpoolAns o → S α} {batch : List Spooled}
    (hg : Knows I K batch g) (hk : Keeps G I K g o)
    (hf : ∀ x, G.may g o x → Knows I K batch (G.next g o x) → G.wp Q (f x) (G.next g o x)) :
    G.wp Q (Prog.call o >>= f) g := by
  rw [Prog.call_bind]
  exact ⟨hk.1, fun x hx => hf x hx (hg.next hk hx)⟩

theorem wp_removed {α : Type} (h : Carries G I K) {Q : α → γ → Prop} {sp : Spooled} {batch : List Spooled}
    {p : S α} (hg : Knows I K (sp :: batch) g) (hp : ∀ g', Knows I K batch g' → G.wp Q p g') :
    G.wp Q (Telemetry.remove sp >>= fun _ => p) g := by
  apply Monitor.wp_seq (h.remove g sp hg.1 (hg.2 sp List.mem_cons_self))
  intro _ g' hg'
  exact hp g' ⟨hg'.1, fun sp' hsp => hg'.2 sp' (hg.tail.2 sp' hsp)⟩

theorem sendPerEvent (h : Carries G I K) {batch : List Spooled} (hg : Knows I K batch g) :
    G.wp (fun _ g' => I g') (Telemetry.sendPerEvent batch) g := by
  induction batch generalizing g with
  | nil => exact hg.1
  | cons sp batch ih =>
    unfold Telemetry.sendPerEvent
    apply wp_keeps hg (h.single g sp hg.1 (hg.2 sp List.mem_cons_self))
    intro x _ hg'
    cases x with
    | none =>
      apply wp_keeps hg' (h.quiet _ _ hg'.1 (.exportError _))
      intro _ _ hg''
      exact hg''.1
    | some r =>
      dsimp only
      split
      · exact h.wp_removed hg' (fun g' => ih)
      apply wp_keeps hg' (h.quiet _ _ hg'.1 (.exportError _))
      intro _ _ hg''
      split
      · apply wp_keeps hg'' (h.quiet _ _ hg''.1 (.drop _))
        intro _ _ hdropped
        exact h.wp_removed hdropped (fun g' => ih)
      · exact hg''.1

theorem settleBatch (h : Carries G I K) (accepted : List String) {batch : List Spooled} (hg : Knows I K batch g) :
    G.wp (fun _ g' => I g') (Telemetry.settleBatch accepted batch) g := by
  induction batch generalizing g with
  | nil => exact hg.1
  | cons sp batch ih =>
    unfold Telemetry.settleBatch
    split
    · exact h.wp_removed hg (fun g' => ih)
    · apply wp_keeps hg (h.quiet _ _ hg.1 (.drop _))
      intro _ _ hg'
      exact h.wp_removed hg' (fun g' => ih)

theorem send (h : Carries G I K) {batch : List Spooled} (hg : Knows I K batch g) (hfull : Full batch) :
    G.wp (fun _ g' => I g') (Telemetry.send batch) g := by
  unfold Telemetry.send
  apply wp_keeps hg (h.quiet _ _ hg.1 .perEvent)
  intro fallen _ hg
  split
  · exact h.sendPerEvent hg
  apply wp_keeps hg (h.batch _ batch hg.1 hg.2 hfull)
  intro x _ hg
  have hone : G.wp (fun _ g' => I g') (fallBack >>= fun _ => Telemetry.sendPerEvent batch)
      (G.next (G.next g .perEvent fallen) (.post "/v1/telemetry/batch" (batchBody batch)) x) := by
    apply wp_keeps hg (h.quiet _ _ hg.1 .fallBack)
    intro _ _ hg
    exact h.sendPerEvent hg
  have hfailed : G.wp (fun _ g' => I g') (add .exportErrors 1 >>= fun _ => pure false)
      (G.next (G.next g .perEvent fallen) (.post "/v1/telemetry/batch" (batchBody batch)) x) := by
    apply wp_keeps hg (h.quiet _ _ hg.1 (.exportError _))
    intro _ _ hg
    exact hg.1
  cases x with
  | none => exact hfailed
  | some r =>
    dsimp only
    split
    · exact hone
    split
    · exact hfailed
    split
    · apply Monitor.wp_seq (h.settleBatch _ hg)
      intro _ g' hg'
      exact hg'
    · exact hone

theorem deliverFiles (h : Carries G I K) {files : List String} {batch : List Spooled} {sent : Nat}
    (hg : Knows I K batch g) (hopen : Open batch) :
    G.wp (fun _ g' => I g') (Telemetry.deliverFiles batch (batchSize batch) sent files) g := by
  induction files generalizing batch sent g with
  | nil =>
    unfold Telemetry.deliverFiles
    split
    · rename_i hne
      apply Monitor.wp_seq (h.send hg (hopen.full hne.1))
      intro _ g' hg'
      exact hg'
    · exact hg.1
  | cons f files ih =>
    unfold Telemetry.deliverFiles
    apply wp_keeps hg (h.quiet _ _ hg.1 .cancelled)
    intro stop _ hg
    split
    · exact hg.1
    split
    · exact ih hg hopen
    rename_i hname
    have hjson : ".json".toList.isSuffixOf f.toList = true := by simpa using hname
    apply wp_keeps hg (h.read _ f hg.1 hjson)
    intro b hb hread
    split
    · apply wp_keeps hread (h.quiet _ _ hread.1 (.diskError _))
      intro _ _ hg
      exact ih hg hopen
    · rename_i sp hsp
      have hmore : Knows I K (batch ++ [sp]) (G.next (G.next g .cancelled stop) (.readFile f) b) := by
        refine ⟨hread.1, fun sp' hsp' => ?_⟩
        rcases List.mem_append.mp hsp' with hold | hnew
        · exact hread.2 sp' hold
        · obtain rfl := List.mem_singleton.mp hnew
          exact h.learn _ f b sp' hg.1 hjson hb hsp
      dsimp only
      rw [← batchSize_snoc]
      split
      · rename_i hroom
        exact ih hmore ⟨hroom.1, hroom.2⟩
      apply Monitor.wp_seq (h.send hmore (hopen.snoc sp))
      intro ok g' hg'
      have hnone : Knows I K [] g' := ⟨hg', fun _ hsp => nomatch hsp⟩
      cases ok with
      | true => exact ih hnone open_nil
      | false => exact hg'

/-- A delivery keeps the rules of every monitor that allows this much. -/
theorem deliver (h : Carries G I K) (hg : I g) : G.wp (fun _ g' => I g') Telemetry.deliver g := by
  have hnone : Knows I K [] g := ⟨hg, fun _ hsp => nomatch hsp⟩
  unfold Telemetry.deliver
  apply wp_keeps hnone (h.quiet _ _ hg .readDir)
  intro files _ hg
  cases files with
  | none =>
    apply wp_keeps hg (h.quiet _ _ hg.1 (.diskError _))
    intro _ _ hg
    exact hg.1
  | some files => exact h.deliverFiles hg open_nil

end Carries

end Switchboard.Proofs.Deliver
