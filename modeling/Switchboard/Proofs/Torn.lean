import Switchboard.Proofs.Store

namespace Switchboard.Proofs.Torn
open Text Gateway Entry Store

/-- Where `os.WriteFile` stops, whether it fails or the process does: before the file is
touched, after the file was truncated and pieces of these lengths were appended to it, or at
its end. -/
inductive Stop where
  | before
  | during (pieces : List Nat)
  | finished
deriving DecidableEq, Repr

/-- What is in a file once pieces of `b` have been appended to what it had. -/
def append (b : Bytes) : List Nat → Bytes → Bytes
  | [], content => content
  | n :: pieces, content => append b pieces (content ++ (b.drop content.length).take n)

/-- What is in the file when the write of `b` stops. -/
def Stop.content (old b : Bytes) : Stop → Bytes
  | .before => old
  | .during pieces => append b pieces []
  | .finished => b

def Stop.disk : Stop → DiskWrite
  | .before => .untouched
  | .during pieces => .torn pieces.sum
  | .finished => .complete

/-- The file is left as it was or with all of its new content. -/
def Stop.Clean (e : IdemEntry) : Stop → Prop
  | .during pieces => (encodeEntry e).length ≤ pieces.sum
  | _ => True

theorem append_take (b : Bytes) (pieces : List Nat) (k : Nat) :
    append b pieces (b.take k) = b.take (k + pieces.sum) := by
  induction pieces generalizing k with
  | nil => simp [append]
  | cons n pieces ih =>
    have hnext : b.take k ++ (b.drop (b.take k).length).take n = b.take (k + n) := by
      by_cases hk : k ≤ b.length
      · rw [List.length_take_of_le hk, List.take_add]
      · have hlong : b.length ≤ k := by omega
        rw [List.take_of_length_le hlong, List.drop_length, List.take_nil, List.append_nil,
          List.take_of_length_le (by omega)]
    rw [append, hnext, ih, List.sum_cons, Nat.add_assoc]

section
variable {sha : Bytes → Bytes} {s : IdemStore} {now later boot : Int} {key : String} {f : IdemFile}
  {e₀ e₁ : IdemEntry}

/-- The file after a write that stops. -/
theorem lookup_stopped (now : Int) (hf : s.files.lookup (IdemStore.path sha key) = some f) (e : IdemEntry) (stop : Stop) :
    ∃ t, (t = f.modTime ∨ t = now) ∧
      (s.finish sha now key e stop.disk).2.files.lookup (IdemStore.path sha key) =
        some ⟨stop.content f.content (encodeEntry e), t⟩ := by
  have hexists : ¬ ((s.files.lookup (IdemStore.path sha key)).isNone = true ∧
      s.limit < s.used + (encodeEntry e).length) := by
    rw [hf]
    rintro ⟨hnone, -⟩
    cases hnone
  unfold IdemStore.finish IdemStore.write
  dsimp only
  rw [if_neg hexists]
  cases stop with
  | before => exact ⟨f.modTime, .inl rfl, hf⟩
  | during pieces =>
    refine ⟨now, .inr rfl, ?_⟩
    have hcontent := append_take (encodeEntry e) pieces 0
    rw [List.take_zero, Nat.zero_add] at hcontent
    dsimp only [Stop.disk, Stop.content]
    rw [AList.lookup_insert, hcontent]
  | finished => exact ⟨now, .inr rfl, AList.lookup_insert _⟩

/-- The store that a later request finds: the same, or one that a restart has made of its
files. -/
def found (s : IdemStore) : Option Int → IdemStore
  | none => s
  | some boot => newIdemStore s.files boot s.ttl s.limit

/-- A file that has not expired is found. -/
theorem lookup_found {name : String} {f : IdemFile} (restart : Option Int)
    (hf : s.files.lookup name = some f) (hfresh : ∀ boot ∈ restart, boot - f.modTime ≤ s.ttl) :
    (found s restart).files.lookup name = some f := by
  cases restart with
  | none => exact hf
  | some boot =>
    apply AList.mem_lookup_iff.mpr
    apply List.mem_filter.mpr
    exact ⟨AList.mem_lookup_iff.mp hf, decide_eq_true (hfresh boot rfl)⟩

theorem found_ttl (s : IdemStore) (restart : Option Int) : (found s restart).ttl = s.ttl := by
  cases restart <;> rfl

/-- What a request is told whose key has an entry that can be read. -/
theorem begin_of_read {e : IdemEntry} (h : s.read sha later key = some e) (body : Bytes)
    (disk : DiskWrite) : (s.begin sha later key body disk).1 ≠ .ok none := by
  have hbegun := begun sha s later key body disk
  intro hclaimed
  rw [hclaimed] at hbegun
  cases hbegun with
  | claimed _ hnone _ =>
    rw [h] at hnone
    cases hnone

/-- A file that cannot be read does not keep its key from being claimed. -/
theorem begin_of_unread (h : s.read sha later key = none)
    (hf : s.files.lookup (IdemStore.path sha key) = some f) (body : Bytes) :
    (s.begin sha later key body .complete).1 = .ok none := by
  unfold IdemStore.begin
  rw [h]
  simp [IdemStore.write, hf]

theorem read_content {e : Option IdemEntry} (hf : s.files.lookup (IdemStore.path sha key) = some f)
    (hd : decodeEntry f.content = e) (hfresh : ∀ d ∈ e, later - d.stored * second ≤ s.ttl) :
    s.read sha later key = e := by
  unfold IdemStore.read
  rw [hf]
  dsimp only
  rw [hd]
  cases e with
  | none => rfl
  | some d =>
    have hlive := hfresh d rfl
    dsimp only
    rw [if_neg (by omega)]

/-- An entry is replaced by another, and the write stops anywhere. A later request with the key,
in the same process or after a restart, finds one of the two and is not let through, exactly when
the write does not stop between truncating the file and its last byte. -/
theorem entry_replaced_atomically_iff (sha256 : Bytes → Bytes) (s : IdemStore) (key : String)
    (e₀ e₁ : IdemEntry) (f : IdemFile) (h₀ : Storable e₀) (h₁ : Storable e₁)
    (hf : s.files.lookup (IdemStore.path sha256 key) = some f) (hold : f.content = encodeEntry e₀)
    (now later : Int) (stop : Stop) (restart : Option Int)
    (hlive : later - e₀.stored * second ≤ s.ttl ∧ later - e₁.stored * second ≤ s.ttl)
    (hboot : ∀ boot ∈ restart, boot - f.modTime ≤ s.ttl ∧ boot - now ≤ s.ttl) :
    (((found (s.finish sha256 now key e₁ stop.disk).2 restart).read sha256 later key = some e₀ ∨
        (found (s.finish sha256 now key e₁ stop.disk).2 restart).read sha256 later key = some e₁) ∧
      ∀ body disk, ((found (s.finish sha256 now key e₁ stop.disk).2 restart).begin sha256 later key body
        disk).1 ≠ .ok none) ↔
    stop.Clean e₁ := by
  obtain ⟨t, ht, hstopped⟩ := lookup_stopped now hf e₁ stop
  obtain ⟨r, hwritten⟩ := finish_written sha256 s now key e₁ stop.disk
  have httl := hwritten.elsewhere.ttl
  generalize (s.finish sha256 now key e₁ stop.disk).2 = s₁ at *
  have hlookup := lookup_found restart hstopped (fun boot hb => by
    rw [httl]
    obtain ⟨hmod, hnow⟩ := hboot boot hb
    rcases ht with rfl | rfl
    · exact hmod
    · exact hnow)
  have hkept := found_ttl s₁ restart
  generalize found s₁ restart = s₂ at *
  have hread : ∀ e, decodeEntry (stop.content f.content (encodeEntry e₁)) = some e →
      (e = e₀ ∨ e = e₁) → s₂.read sha256 later key = some e := by
    intro e hd he
    refine read_content hlookup hd (fun d hd => ?_)
    obtain rfl := Option.some.inj hd
    rw [hkept, httl]
    rcases he with rfl | rfl
    · exact hlive.1
    · exact hlive.2
  have hsees : ∀ e, decodeEntry (stop.content f.content (encodeEntry e₁)) = some e →
      (e = e₀ ∨ e = e₁) →
      (s₂.read sha256 later key = some e₀ ∨ s₂.read sha256 later key = some e₁) ∧
        ∀ body disk, (s₂.begin sha256 later key body disk).1 ≠ .ok none := by
    intro e hd he
    have hr := hread e hd he
    refine ⟨?_, begin_of_read hr⟩
    rcases he with rfl | rfl
    · exact .inl hr
    · exact .inr hr
  cases stop with
  | before =>
    refine ⟨fun _ => trivial, fun _ => hsees e₀ ?_ (.inl rfl)⟩
    rw [Stop.content, hold, decode_encode h₀]
  | finished => exact ⟨fun _ => trivial, fun _ => hsees e₁ (decode_encode h₁) (.inr rfl)⟩
  | during pieces =>
    have hcontent := append_take (encodeEntry e₁) pieces 0
    rw [List.take_zero, Nat.zero_add] at hcontent
    constructor
    · rintro ⟨-, hrefused⟩
      by_contra hshort
      have hnone : s₂.read sha256 later key = none := by
        refine read_content hlookup ?_ (fun d hd => nomatch hd)
        rw [Stop.content, hcontent]
        exact decode_short h₁ (Nat.lt_of_not_le hshort)
      exact hrefused [] .complete (begin_of_unread hnone hlookup [])
    · intro hwhole
      refine hsees e₁ ?_ (.inr rfl)
      rw [Stop.content, hcontent, List.take_of_length_le hwhole, decode_encode h₁]

end

def runningEntry : IdemEntry := { state := .running }

def doneEntry : IdemEntry := { state := .done, status := 200, stream := true, text := "hi", finish := "stop" }

theorem storable_running_entry : Storable runningEntry := storable_plain (by decide) (by decide) rfl

theorem storable_done_entry : Storable doneEntry := storable_plain (by decide) (by decide) rfl

/-- A key that is in use. -/
def inUse : IdemStore :=
  { files := AList.insert (IdemStore.path id "k") ⟨encodeEntry runningEntry, 0⟩ ∅, ttl := 3600 * second,
    limit := 1048576 }

theorem inUse_lookup : inUse.files.lookup (IdemStore.path id "k") = some ⟨encodeEntry runningEntry, 0⟩ :=
  AList.lookup_insert _

/-- The answer is recorded, and a restart later the key has it or is still in use. -/
theorem entry_replaced_atomically_iff_recorded :
    (((found (inUse.finish id 0 "k" doneEntry Stop.finished.disk).2 (some second)).read id second "k" =
        some runningEntry ∨
      (found (inUse.finish id 0 "k" doneEntry Stop.finished.disk).2 (some second)).read id second "k" =
        some doneEntry) ∧
      ∀ body disk, ((found (inUse.finish id 0 "k" doneEntry Stop.finished.disk).2 (some second)).begin id
        second "k" body disk).1 ≠ .ok none) :=
  (entry_replaced_atomically_iff id inUse "k" runningEntry doneEntry _ storable_running_entry
    storable_done_entry inUse_lookup rfl 0 second .finished (some second) (by decide)
    (fun boot hb => by rw [← Option.some.inj hb]; decide)).mpr trivial

/-- The write stops when it has truncated the file: the key is claimed a second time. -/
theorem truncated_entry_is_claimed_again :
    (inUse.read id 0 "k").isSome = true ∧
      ((inUse.finish id 0 "k" doneEntry (Stop.during []).disk).2.begin id second "k" [] .complete).1 =
        .ok none := by
  refine ⟨by decide +kernel, ?_⟩
  obtain ⟨t, -, hlookup⟩ := lookup_stopped 0 inUse_lookup doneEntry (.during [])
  exact begin_of_unread (read_content hlookup rfl (fun d hd => nomatch hd)) hlookup []

end Switchboard.Proofs.Torn
