import Switchboard.Proofs.Entry
import Switchboard.Text.JsonPrefix

namespace Switchboard.Proofs.Store
open Text Gateway Entry IdemStore

section
variable {sha : Bytes → Bytes}

theorem path_injective (h : Function.Injective sha) : Function.Injective (path sha) := by
  intro k k' hk
  have hhex : Strings.hexEncode (sha (utf8 k.toList)) = Strings.hexEncode (sha (utf8 k'.toList)) :=
    String.toList_injective (List.append_cancel_right (by
      have hlists := congrArg String.toList hk
      simpa only [path, String.toList_append] using hlists))
  exact String.toList_injective (utf8_injective (h (Strings.hexEncode_injective hhex)))

theorem hashBody_injective (h : Function.Injective sha) : Function.Injective (hashBody sha) :=
  Strings.hexEncode_injective.comp h

/-- Everything about the store but one file. -/
structure Elsewhere (q : String) (s s' : IdemStore) : Prop where
  ttl : s'.ttl = s.ttl
  limit : s'.limit = s.limit
  files : ∀ r, r ≠ q → s'.files.lookup r = s.files.lookup r

theorem Elsewhere.refl (q : String) (s : IdemStore) : Elsewhere q s s :=
  ⟨rfl, rfl, fun _ _ => rfl⟩

variable {s s' : IdemStore} {now : Int} {key : String} {e : IdemEntry} {body : Bytes}
  {disk : DiskWrite}

/-- How a write may end. -/
inductive Written (sha : Bytes → Bytes) (s : IdemStore) (now : Int) (key : String) (e : IdemEntry) :
    Option StoreError → IdemStore → Prop where
  | full : s.files.lookup (path sha key) = none → Written sha s now key e (some .full) s
  | untouched : Written sha s now key e (some .disk) s
  | torn (n : Nat) (s' : IdemStore) : Elsewhere (path sha key) s s' →
      s'.files.lookup (path sha key) = some ⟨(encodeEntry e).take n, now⟩ →
      Written sha s now key e (some .disk) s'
  | complete (s' : IdemStore) : Elsewhere (path sha key) s s' →
      s'.files.lookup (path sha key) = some ⟨encodeEntry e, now⟩ → Written sha s now key e none s'

theorem written (sha : Bytes → Bytes) (s : IdemStore) (now : Int) (key : String) (e : IdemEntry)
    (disk : DiskWrite) :
    Written sha s now key e (s.write sha now key e disk).1 (s.write sha now key e disk).2 := by
  have hinsert : ∀ f : IdemFile, ∀ r, r ≠ path sha key →
      (s.files.insert (path sha key) f).lookup r = s.files.lookup r :=
    fun f r hr => AList.lookup_insert_ne hr
  unfold IdemStore.write
  dsimp only
  split
  · rename_i hfull
    exact .full (Option.isNone_iff_eq_none.mp hfull.1)
  · cases disk with
    | untouched => exact .untouched
    | torn n => exact .torn n _ ⟨rfl, rfl, hinsert _⟩ (AList.lookup_insert _)
    | complete => exact .complete _ ⟨rfl, rfl, hinsert _⟩ (AList.lookup_insert _)

theorem Written.elsewhere {r : Option StoreError} (h : Written sha s now key e r s') :
    Elsewhere (path sha key) s s' := by
  cases h with
  | full h => exact .refl _ s
  | untouched => exact .refl _ s
  | torn n s' h hf => exact h
  | complete s' h hf => exact h

/-- The entry with which a key is claimed. -/
def running (sha : Bytes → Bytes) (now : Int) (body : Bytes) : IdemEntry :=
  { state := .running, bodyHash := hashBody sha body, stored := unix now }

theorem storable_running : Storable (running sha now body) :=
  storable_plain (inInt64_wrap64 _) rfl rfl

/-- How a claim may end. -/
inductive Begun (sha : Bytes → Bytes) (s : IdemStore) (now : Int) (key : String) (body : Bytes) :
    Except StoreError (Option IdemEntry) → IdemStore → Prop where
  | mismatch (e : IdemEntry) : s.read sha now key = some e → e.bodyHash ≠ hashBody sha body →
      Begun sha s now key body (.error .mismatch) s
  | replay (e : IdemEntry) : s.read sha now key = some e → e.bodyHash = hashBody sha body →
      e.state = .done → Begun sha s now key body (.ok (some e)) s
  | conflict (e : IdemEntry) : s.read sha now key = some e → e.bodyHash = hashBody sha body →
      e.state ≠ .done → Begun sha s now key body (.error .conflict) s
  | claimed (s' : IdemStore) : s.read sha now key = none →
      Written sha s now key (running sha now body) none s' →
      Begun sha s now key body (.ok none) s'
  | full : s.read sha now key = none →
      Written sha s now key (running sha now body) (some .full) s →
      Begun sha s now key body (.error .full) s
  | disk (s' : IdemStore) : s.read sha now key = none →
      Written sha s now key (running sha now body) (some .disk) s' →
      Begun sha s now key body (.error .disk) s'

theorem begun (sha : Bytes → Bytes) (s : IdemStore) (now : Int) (key : String) (body : Bytes)
    (disk : DiskWrite) :
    Begun sha s now key body (s.begin sha now key body disk).1
      (s.begin sha now key body disk).2.2 := by
  unfold IdemStore.begin
  split
  · rename_i e hread
    split
    · rename_i hhash
      exact .mismatch e hread hhash
    · rename_i hhash
      have hhash : e.bodyHash = hashBody sha body := by simpa using hhash
      split
      · rename_i hs
        exact .replay e hread hhash hs
      · rename_i hs
        exact .conflict e hread hhash (by simp [hs])
      · rename_i hs
        exact .conflict e hread hhash (by simp [hs])
  · rename_i hread
    have hw := written sha s now key (running sha now body) disk
    unfold running at hw
    split
    · rename_i s' heq
      rw [heq] at hw
      exact .claimed s' hread hw
    · rename_i s' heq
      rw [heq] at hw
      cases hw with
      | full h => exact .full hread (.full h)
    · rename_i er s' hne heq
      rw [heq] at hw
      cases hw with
      | full h => exact absurd rfl hne
      | untouched => exact .disk _ hread .untouched
      | torn n _ h hf => exact .disk s' hread (.torn n s' h hf)

theorem Begun.elsewhere {r : Except StoreError (Option IdemEntry)}
    (h : Begun sha s now key body r s') : Elsewhere (path sha key) s s' := by
  cases h with
  | claimed _ _ hw => exact hw.elsewhere
  | disk _ _ hw => exact hw.elsewhere
  | _ => exact .refl _ s

theorem finish_written (sha : Bytes → Bytes) (s : IdemStore) (now : Int) (key : String)
    (e : IdemEntry) (disk : DiskWrite) :
    ∃ r, Written sha s now key e r (s.finish sha now key e disk).2 := by
  have hw := written sha s now key e disk
  unfold IdemStore.finish
  split
  all_goals
    rename_i heq
    rw [heq] at hw
    exact ⟨_, hw⟩

theorem release_elsewhere (sha : Bytes → Bytes) (s : IdemStore) (key : String) (removed : Bool) :
    Elsewhere (path sha key) s (s.release sha key removed) := by
  unfold IdemStore.release
  split
  · exact .refl _ s
  · refine ⟨rfl, rfl, fun r hr => ?_⟩
    cases removed with
    | true => exact AList.lookup_erase_ne hr
    | false => rfl

/-- What `read` makes of a file that was written whole. -/
theorem read_encoded {f : IdemFile} (hf : s.files.lookup (path sha key) = some f)
    (he : Storable e) (hc : f.content = encodeEntry e) :
    s.read sha now key = if s.ttl < now - e.stored * second then none else some e := by
  unfold IdemStore.read
  rw [hf]
  dsimp only
  rw [hc, decode_encode he]

/-- The first bytes of an entry are not an entry. -/
theorem decode_short {n : Nat} (he : Storable e) (hn : n < (encodeEntry e).length) :
    decodeEntry ((encodeEntry e).take n) = none := by
  unfold decodeEntry encodeEntry GoJson.unmarshal at *
  rw [idemEntryJson, GoJson.scan_truncated (over_entry he) hn]
  rfl

theorem decode_torn {d : IdemEntry} {n : Nat} (he : Storable e)
    (hd : decodeEntry ((encodeEntry e).take n) = some d) : d = e := by
  by_cases hn : n < (encodeEntry e).length
  · rw [decode_short he hn] at hd
    cases hd
  · rw [List.take_of_length_le (Nat.le_of_not_lt hn), decode_encode he] at hd
    exact (Option.some.inj hd).symm

end

end Switchboard.Proofs.Store
