import Switchboard.Data.Weight
import Switchboard.Proofs.Store

namespace Switchboard.Proofs.Account
open Text Gateway Store Data

/-- The store with the clock. -/
structure Desk where
  now : Int
  store : IdemStore

/-- A call on the store that is run to its end, a restart, or time. -/
inductive Deed where
  | tick (d : Nat)
  | begin (key : String) (body : Bytes)
  | finish (key : String) (e : IdemEntry)
  | release (key : String)
  | sweep
  | restart (ttl limit : Int)

namespace Desk
variable (sha256 : Bytes → Bytes)

def perform (d : Desk) : Deed → Desk
  | .tick t => { d with now := d.now + t }
  | .begin key body => { d with store := (d.store.begin sha256 d.now key body .complete).2.2 }
  | .finish key e => { d with store := (d.store.finish sha256 d.now key e .complete).2 }
  | .release key => { d with store := d.store.release sha256 key true }
  | .sweep => { d with store := d.store.sweepAll d.now }
  | .restart ttl limit => { d with store := newIdemStore d.store.files d.now ttl limit }

def after (d : Desk) (deeds : List Deed) : Desk := deeds.foldl (perform sha256) d

/-- A store over a directory with nothing in it. -/
def fresh (now ttl limit : Int) : Desk := ⟨now, newIdemStore ∅ now ttl limit⟩

end Desk

def fileSize (f : IdemFile) : Int := f.content.length

/-- The bytes in the directory. -/
def totalSize (s : IdemStore) : Int := weight fileSize s.files

/-- What is counted is what is there. No file is empty, so a file that is overwritten is
told from one that is not there. -/
structure Accounted (s : IdemStore) : Prop where
  used : s.used = totalSize s
  count : s.count = s.files.size
  content : ∀ name f, s.files.lookup name = some f → f.content ≠ []

section
variable {sha : Bytes → Bytes} {s : IdemStore} {now : Int} {key : String} {e : IdemEntry} {body : Bytes}

theorem encode_ne_nil (e : IdemEntry) : encodeEntry e ≠ [] := by
  unfold encodeEntry idemEntryJson GoJson.marshal
  rw [Json.print, utf8]
  simp [utf8Char]

theorem fileSize_pos (h : Accounted s) {name : String} {f : IdemFile}
    (hf : s.files.lookup name = some f) : 0 < fileSize f := by
  have hlen := List.length_pos_iff.mpr (h.content name f hf)
  unfold fileSize
  omega

theorem begin_store (sha : Bytes → Bytes) (s : IdemStore) (now : Int) (key : String) (body : Bytes)
    (disk : DiskWrite) :
    (s.begin sha now key body disk).2.2 =
      if (s.read sha now key).isSome then s
      else (s.write sha now key (running sha now body) disk).2 := by
  unfold IdemStore.begin
  split
  · rename_i e hread
    rw [hread]
    split
    · rfl
    · split <;> rfl
  · rename_i hread
    rw [hread]
    unfold running
    split <;> (rename_i heq; rw [heq]; rfl)

theorem finish_store (sha : Bytes → Bytes) (s : IdemStore) (now : Int) (key : String) (e : IdemEntry)
    (disk : DiskWrite) :
    (s.finish sha now key e disk).2 = (s.write sha now key e disk).2 := by
  unfold IdemStore.finish
  split <;> (rename_i heq; rw [heq])

/-- What a write that does not fail on the disk does. -/
theorem write_complete (sha : Bytes → Bytes) (s : IdemStore) (now : Int) (key : String) (e : IdemEntry) :
    (s.write sha now key e .complete).2 =
      match s.files.lookup (IdemStore.path sha key) with
      | some f => { s with
          files := s.files.insert (IdemStore.path sha key) ⟨encodeEntry e, now⟩
          count := if fileSize f = 0 then s.count + 1 else s.count
          used := s.used + ((encodeEntry e).length - fileSize f) }
      | none =>
        if s.limit < s.used + (encodeEntry e).length then s
        else { s with
          files := s.files.insert (IdemStore.path sha key) ⟨encodeEntry e, now⟩
          count := s.count + 1
          used := s.used + (encodeEntry e).length } := by
  unfold IdemStore.write
  cases hf : s.files.lookup (IdemStore.path sha key) with
  | some f => simp [fileSize]
  | none =>
    by_cases hfull : s.limit < s.used + (encodeEntry e).length
    · simp [hfull]
    · simp [hfull]

theorem size_eq_weight (m : Map String IdemFile) : (m.size : Int) = weight (fun _ => 1) m :=
  (weight_one m).symm

/-- A file that has been written is not empty. -/
theorem Accounted.written (h : Accounted s) (f : IdemFile) (hf : f.content ≠ []) (q name : String)
    (g : IdemFile) (hg : (s.files.insert q f).lookup name = some g) : g.content ≠ [] := by
  by_cases hname : name = q
  · rw [hname, AList.lookup_insert] at hg
    rwa [← Option.some.inj hg]
  · rw [AList.lookup_insert_ne hname] at hg
    exact h.content name g hg

theorem Accounted.write (h : Accounted s) (sha : Bytes → Bytes) (now : Int) (key : String)
    (e : IdemEntry) : Accounted (s.write sha now key e .complete).2 := by
  have hcontent := h.written ⟨encodeEntry e, now⟩ (encode_ne_nil e) (IdemStore.path sha key)
  rw [write_complete]
  split
  · rename_i f hf
    have hpos := fileSize_pos h hf
    refine ⟨?_, ?_, hcontent⟩
    · have hused := h.used
      rw [totalSize] at hused ⊢
      rw [weight_insert_over hf]
      dsimp only [fileSize] at *
      omega
    · have hcount := h.count
      rw [size_eq_weight] at hcount ⊢
      rw [weight_insert_over hf, if_neg (by omega)]
      dsimp only
      omega
  · rename_i hf
    split
    · exact h
    · refine ⟨?_, ?_, hcontent⟩
      · have hused := h.used
        rw [totalSize] at hused ⊢
        rw [weight_insert_absent hf]
        dsimp only [fileSize] at *
        omega
      · have hcount := h.count
        rw [size_eq_weight] at hcount ⊢
        rw [weight_insert_absent hf]
        dsimp only
        omega

/-- A file is deleted and taken off the account. -/
theorem Accounted.erase (h : Accounted s) {name : String} {f : IdemFile}
    (hf : s.files.lookup name = some f) :
    Accounted { s with files := s.files.erase name, used := s.used - fileSize f, count := s.count - 1 } := by
  refine ⟨?_, ?_, fun other g hg => ?_⟩
  · have hused := h.used
    rw [totalSize] at hused ⊢
    rw [weight_erase hf]
    dsimp only
    omega
  · have hcount := h.count
    rw [size_eq_weight] at hcount ⊢
    rw [weight_erase hf]
    dsimp only
    omega
  · by_cases hname : other = name
    · rw [hname, AList.lookup_erase] at hg
      cases hg
    · rw [AList.lookup_erase_ne hname] at hg
      exact h.content other g hg

theorem Accounted.release (h : Accounted s) (sha : Bytes → Bytes) (key : String) :
    Accounted (s.release sha key true) := by
  unfold IdemStore.release
  split
  · exact h
  · rename_i f hf
    exact h.erase hf

/-- The files that are still to be deleted are there, and as long as they were. -/
def Present (s : IdemStore) (vs : List Victim) : Prop :=
  (vs.map Victim.name).Nodup ∧ ∀ v ∈ vs, ∃ f, s.files.lookup v.name = some f ∧ v.size = fileSize f

theorem Present.rest {v : Victim} {vs : List Victim} (h : Present s (v :: vs)) (used count : Int) :
    Present { s with files := s.files.erase v.name, used := used, count := count } vs := by
  obtain ⟨hnodup, hall⟩ := h
  obtain ⟨hfirst, hrest⟩ := List.nodup_cons.mp hnodup
  refine ⟨hrest, fun u hu => ?_⟩
  obtain ⟨f, hf, hsize⟩ := hall u (List.mem_cons_of_mem _ hu)
  refine ⟨f, ?_, hsize⟩
  have hne : u.name ≠ v.name := by
    intro heq
    exact hfirst (List.mem_map.mpr ⟨u, hu, heq⟩)
  dsimp only
  rw [AList.lookup_erase_ne hne]
  exact hf

theorem sweepVictims_cons {v : Victim} {vs : List Victim} {f : IdemFile}
    (hf : s.files.lookup v.name = some f) (hsize : v.size = fileSize f) :
    IdemStore.sweepVictims now (v :: vs) s =
      IdemStore.sweepVictims now vs
        { s with files := s.files.erase v.name, used := s.used - fileSize f, count := s.count - 1 } := by
  simp [IdemStore.sweepVictims, IdemStore.sweep, hf, hsize]

theorem Accounted.sweepVictims {vs : List Victim} (h : Accounted s) (hvs : Present s vs) :
    Accounted (IdemStore.sweepVictims now vs s) := by
  induction vs generalizing s with
  | nil => exact h
  | cons v vs ih =>
    obtain ⟨f, hf, hsize⟩ := hvs.2 v List.mem_cons_self
    rw [sweepVictims_cons hf hsize]
    exact ih (h.erase hf) (hvs.rest _ _)

theorem present_expired (s : IdemStore) (now : Int) : Present s (s.expired now) := by
  refine ⟨?_, fun v hv => ?_⟩
  · unfold IdemStore.expired
    rw [List.map_map]
    have hnames : ((sortKeys (s.files.entries.map (fun f => (f.1, f.2)))).map Prod.fst).Nodup := by
      rw [((sortKeys_perm _).map Prod.fst).nodup_iff, List.map_map]
      exact s.files.nodupKeys
    exact hnames.sublist ((List.take_sublist _ _).trans List.filter_sublist |>.map Prod.fst)
  · obtain ⟨f, hf, rfl⟩ := List.mem_map.mp hv
    obtain ⟨hmem, -⟩ := List.mem_filter.mp (List.mem_of_mem_take hf)
    obtain ⟨g, hg, rfl⟩ := List.mem_map.mp ((sortKeys_perm _).mem_iff.mp hmem)
    exact ⟨g.2, AList.mem_lookup_iff.mpr hg, rfl⟩

theorem accounted_newIdemStore {files : Map String IdemFile} (ttl limit : Int)
    (h : ∀ name f, files.lookup name = some f → f.content ≠ []) :
    Accounted (newIdemStore files now ttl limit) := by
  refine ⟨rfl, rfl, fun name f hf => ?_⟩
  have hmem := AList.mem_lookup_iff.mp (Option.mem_def.mpr hf)
  exact h name f (AList.mem_lookup_iff.mpr (List.mem_of_mem_filter hmem))

theorem Accounted.perform {d : Desk} (h : Accounted d.store) (deed : Deed) :
    Accounted (d.perform sha deed).store := by
  cases deed with
  | tick t => exact h
  | begin key body =>
    unfold Desk.perform
    dsimp only
    rw [begin_store]
    split
    · exact h
    · exact h.write sha d.now key _
  | finish key e =>
    unfold Desk.perform
    dsimp only
    rw [finish_store]
    exact h.write sha d.now key e
  | release key => exact h.release sha key
  | sweep => exact h.sweepVictims (present_expired d.store d.now)
  | restart ttl limit => exact accounted_newIdemStore ttl limit h.content

theorem Accounted.after (sha : Bytes → Bytes) {d : Desk} (h : Accounted d.store) (deeds : List Deed) :
    Accounted (d.after sha deeds).store := by
  induction deeds generalizing d with
  | nil => exact h
  | cons deed deeds ih => exact ih (h.perform deed)

theorem accounted_fresh (now ttl limit : Int) : Accounted (Desk.fresh now ttl limit).store :=
  accounted_newIdemStore ttl limit (fun _ _ hf => nomatch hf)

end

/-- From an empty directory, after any calls on the store that are run to their ends and any
restarts, what is counted is what is there. -/
theorem store_account_exact (sha256 : Bytes → Bytes) (now ttl limit : Int) (deeds : List Deed) :
    let s := ((Desk.fresh now ttl limit).after sha256 deeds).store
    s.used = (s.files.entries.map (fun f => (f.2.content.length : Int))).sum ∧
      s.count = s.files.entries.length := by
  have h := (accounted_fresh now ttl limit).after sha256 deeds
  exact ⟨h.used, h.count⟩

/-- The entry that a call writes, and under which key. -/
def entryOf (sha256 : Bytes → Bytes) (d : Desk) : Deed → Option (String × IdemEntry)
  | .begin key body =>
    if (d.store.read sha256 d.now key).isSome then none else some (key, running sha256 d.now body)
  | .finish key e => some (key, e)
  | _ => none

/-- An entry that replaces another leaves the directory within the limit. -/
def Fits (sha256 : Bytes → Bytes) (d : Desk) (deed : Deed) : Prop :=
  ∀ key e f, entryOf sha256 d deed = some (key, e) →
    d.store.files.lookup (IdemStore.path sha256 key) = some f →
    totalSize d.store - f.content.length + (encodeEntry e).length ≤ d.store.limit

def Deed.restarts : Deed → Bool
  | .restart _ _ => true
  | _ => false

section
variable {sha : Bytes → Bytes} {s : IdemStore} {now : Int} {d : Desk}

theorem totalSize_write (h : Accounted s) (hsmall : totalSize s ≤ s.limit) (now : Int) (key : String)
    (e : IdemEntry) :
    totalSize (s.write sha now key e .complete).2 ≤ s.limit ↔
      ∀ f, s.files.lookup (IdemStore.path sha key) = some f →
        totalSize s - f.content.length + (encodeEntry e).length ≤ s.limit := by
  rw [write_complete]
  cases hf : s.files.lookup (IdemStore.path sha key) with
  | some f =>
    have hweight : totalSize { s with
        files := s.files.insert (IdemStore.path sha key) ⟨encodeEntry e, now⟩
        count := if fileSize f = 0 then s.count + 1 else s.count
        used := s.used + ((encodeEntry e).length - fileSize f) } =
        totalSize s - f.content.length + (encodeEntry e).length := weight_insert_over hf
    dsimp only
    rw [hweight]
    constructor
    · intro hle g hg
      rwa [← Option.some.inj hg]
    · intro hall
      exact hall f rfl
  | none =>
    dsimp only
    split
    · exact ⟨fun _ _ hg => absurd hg (by simp), fun _ => hsmall⟩
    · rename_i hroom
      refine ⟨fun _ _ hg => absurd hg (by simp), fun _ => ?_⟩
      have hweight : totalSize { s with
          files := s.files.insert (IdemStore.path sha key) ⟨encodeEntry e, now⟩
          count := s.count + 1
          used := s.used + (encodeEntry e).length } =
          totalSize s + (encodeEntry e).length := weight_insert_absent hf
      rw [hweight, ← h.used]
      omega

theorem write_limit (sha : Bytes → Bytes) (s : IdemStore) (now : Int) (key : String) (e : IdemEntry)
    (disk : DiskWrite) : (s.write sha now key e disk).2.limit = s.limit :=
  (written sha s now key e disk).elsewhere.limit

theorem totalSize_erase {name : String} {f : IdemFile} (hf : s.files.lookup name = some f)
    {used count : Int} :
    totalSize { s with files := s.files.erase name, used := used, count := count } ≤ totalSize s := by
  have hweight : totalSize { s with files := s.files.erase name, used := used, count := count } =
      totalSize s - fileSize f := weight_erase hf
  rw [hweight]
  unfold fileSize
  omega

theorem sweepVictims_shrinks (now : Int) {vs : List Victim} (hvs : Present s vs) :
    totalSize (IdemStore.sweepVictims now vs s) ≤ totalSize s ∧
      (IdemStore.sweepVictims now vs s).limit = s.limit := by
  induction vs generalizing s with
  | nil => exact ⟨Int.le_refl _, rfl⟩
  | cons v vs ih =>
    obtain ⟨f, hf, hsize⟩ := hvs.2 v List.mem_cons_self
    rw [sweepVictims_cons hf hsize]
    obtain ⟨hsmaller, hlimit⟩ := ih (hvs.rest (s.used - fileSize f) (s.count - 1))
    exact ⟨hsmaller.trans (totalSize_erase hf), hlimit⟩

/-- One call keeps within the limit exactly when it replaces an entry by one that fits. -/
theorem totalSize_perform (sha : Bytes → Bytes) (h : Accounted d.store) (hsmall : totalSize d.store ≤ d.store.limit)
    {deed : Deed} (hdeed : deed.restarts = false) :
    (d.perform sha deed).store.limit = d.store.limit ∧
      (totalSize (d.perform sha deed).store ≤ d.store.limit ↔ Fits sha d deed) := by
  have hwrites : ∀ key e, entryOf sha d deed = some (key, e) →
      (Fits sha d deed ↔ ∀ f, d.store.files.lookup (IdemStore.path sha key) = some f →
        totalSize d.store - f.content.length + (encodeEntry e).length ≤ d.store.limit) := by
    intro key e he
    constructor
    · intro hfits f hf
      exact hfits key e f he hf
    · intro hall key' e' f he' hf
      obtain ⟨rfl, rfl⟩ := Prod.mk.inj (Option.some.inj (he.symm.trans he'))
      exact hall f hf
  have hnothing : entryOf sha d deed = none → Fits sha d deed := by
    intro hnone key e f he
    rw [hnone] at he
    cases he
  cases deed with
  | tick t => exact ⟨rfl, fun _ => hnothing rfl, fun _ => hsmall⟩
  | begin key body =>
    unfold Desk.perform
    dsimp only
    rw [begin_store]
    split
    · rename_i hread
      exact ⟨rfl, fun _ => hnothing (if_pos hread), fun _ => hsmall⟩
    · rename_i hread
      refine ⟨write_limit sha d.store d.now key _ _, ?_⟩
      rw [hwrites key (running sha d.now body) (if_neg hread)]
      exact totalSize_write h hsmall d.now key _
  | finish key e =>
    unfold Desk.perform
    dsimp only
    rw [finish_store]
    refine ⟨write_limit sha d.store d.now key _ _, ?_⟩
    rw [hwrites key e rfl]
    exact totalSize_write h hsmall d.now key e
  | release key =>
    refine ⟨(release_elsewhere sha d.store key true).limit, fun _ => hnothing rfl, fun _ => ?_⟩
    unfold Desk.perform IdemStore.release
    dsimp only
    split
    · exact hsmall
    · rename_i f hf
      exact (totalSize_erase hf).trans hsmall
  | sweep =>
    obtain ⟨hsmaller, hlimit⟩ := sweepVictims_shrinks d.now (present_expired d.store d.now)
    exact ⟨hlimit, fun _ => hnothing rfl, fun _ => hsmaller.trans hsmall⟩
  | restart ttl limit => cases hdeed

theorem within_limit_iff (h : Accounted d.store) (hsmall : totalSize d.store ≤ d.store.limit)
    (deeds : List Deed) (hdeeds : ∀ deed ∈ deeds, deed.restarts = false) :
    (∀ pre post, deeds = pre ++ post → totalSize (d.after sha pre).store ≤ d.store.limit) ↔
      ∀ pre deed post, deeds = pre ++ deed :: post → Fits sha (d.after sha pre) deed := by
  induction deeds generalizing d with
  | nil =>
    constructor
    · intro _ pre deed post heq
      exact absurd heq.symm (by simp)
    · intro _ pre post heq
      obtain ⟨rfl, -⟩ := List.append_eq_nil_iff.mp heq.symm
      exact hsmall
  | cons deed deeds ih =>
    obtain ⟨hlimit, hfirst⟩ := totalSize_perform sha h hsmall (hdeeds deed List.mem_cons_self)
    have hrest : ∀ deed ∈ deeds, deed.restarts = false :=
      fun deed hd => hdeeds deed (List.mem_cons_of_mem _ hd)
    constructor
    · intro hall
      have hnext : totalSize (d.perform sha deed).store ≤ d.store.limit := hall [deed] deeds rfl
      have htail := (ih (h.perform deed) (by rwa [hlimit]) hrest).mp (fun pre post heq => by
        rw [hlimit]
        exact hall (deed :: pre) post (by rw [heq, List.cons_append]))
      intro pre deed' post heq
      cases pre with
      | nil =>
        obtain ⟨rfl, -⟩ := List.cons.inj heq
        exact hfirst.mp hnext
      | cons deed'' pre =>
        obtain ⟨rfl, hrest⟩ := List.cons.inj heq
        exact htail pre deed' post hrest
    · intro hall
      have hnext := hfirst.mpr (hall [] deed deeds rfl)
      have htail := (ih (h.perform deed) (by rwa [hlimit]) hrest).mpr (fun pre deed' post heq =>
        hall (deed :: pre) deed' post (by rw [heq, List.cons_append]))
      intro pre post heq
      cases pre with
      | nil => exact hsmall
      | cons deed'' pre =>
        obtain ⟨rfl, hrest⟩ := List.cons.inj heq
        rw [← hlimit]
        exact htail pre post hrest

end

/-- From an empty directory, the files stay within the limit exactly when every entry that
replaces another leaves them within it. -/
theorem store_within_limit_iff (sha256 : Bytes → Bytes) (now ttl limit : Int) (hlimit : 0 ≤ limit)
    (deeds : List Deed) (hdeeds : ∀ deed ∈ deeds, deed.restarts = false) :
    (∀ pre post, deeds = pre ++ post →
      totalSize ((Desk.fresh now ttl limit).after sha256 pre).store ≤ limit) ↔
    ∀ pre deed post, deeds = pre ++ deed :: post →
      Fits sha256 ((Desk.fresh now ttl limit).after sha256 pre) deed :=
  within_limit_iff (accounted_fresh now ttl limit) hlimit deeds hdeeds

/-- A key is claimed and its short answer recorded. -/
def shortAnswer : List Deed :=
  [.begin "k" [], .finish "k" { state := .done, status := 200, stream := true, text := "hi", finish := "stop" }]

theorem store_within_limit_iff_short :
    totalSize ((Desk.fresh 0 (3600 * second) 1048576).after id shortAnswer).store ≤ 1048576 ∧
    ((∀ pre post, shortAnswer = pre ++ post →
      totalSize ((Desk.fresh 0 (3600 * second) 1048576).after id pre).store ≤ 1048576) ↔
    ∀ pre deed post, shortAnswer = pre ++ deed :: post →
      Fits id ((Desk.fresh 0 (3600 * second) 1048576).after id pre) deed) :=
  ⟨by decide, store_within_limit_iff id 0 (3600 * second) 1048576 (by decide) shortAnswer (by decide)⟩

/-- An answer of more characters than the limit has bytes. -/
def longAnswer : IdemEntry :=
  { state := .done, status := 200, stream := true, text := String.ofList (List.replicate 1048577 'a'),
    finish := "stop" }

theorem text_le_encode {e : IdemEntry} (h : e.text ≠ "") :
    e.text.toList.length ≤ (encodeEntry e).length := by
  have hmem : ("text", Json.str e.text) ∈ [("state", Json.str e.state.string), ("body_hash", .str e.bodyHash),
      ("stored_unix", Json.int e.stored)] ++
      (if e.status = 0 then [] else [("status", Json.int e.status)]) ++
      (if e.stream then [("stream", .bool true)] else []) ++ responseField e.response ++
      (if e.text = "" then [] else [("text", .str e.text)]) ++
      (if e.finish = "" then [] else [("finish", .str e.finish)]) := by
    rw [if_neg h]
    simp
  calc e.text.toList.length ≤ (Json.quote GoJson.escape e.text).length :=
        Json.length_le_quote GoJson.escape_ne_nil e.text
    _ ≤ (Json.print GoJson.escape (idemEntryJson e)).length := Json.print_mem_length hmem
    _ ≤ (encodeEntry e).length := length_le_utf8 _

theorem longAnswer_length : longAnswer.text.toList.length = 1048577 := by
  rw [longAnswer, String.toList_ofList, List.length_replicate]

theorem longAnswer_text : longAnswer.text ≠ "" := by
  intro h
  have hlen := longAnswer_length
  rw [h] at hlen
  cases hlen

/-- The directory has room for a claim, and the answer that replaces it is longer than the
limit. -/
theorem long_answer_exceeds_limit :
    ∃ deeds : List Deed, (∀ deed ∈ deeds, deed.restarts = false) ∧
      1048576 < totalSize ((Desk.fresh 0 (3600 * second) 1048576).after id deeds).store := by
  refine ⟨[.begin "k" [], .finish "k" longAnswer], by decide, ?_⟩
  have hclaimed : (((Desk.fresh 0 (3600 * second) 1048576).perform id (.begin "k" [])).store.files.lookup
      (IdemStore.path id "k")).isSome = true ∧
      totalSize ((Desk.fresh 0 (3600 * second) 1048576).perform id (.begin "k" [])).store =
        (((Desk.fresh 0 (3600 * second) 1048576).perform id (.begin "k" [])).store.files.lookup
          (IdemStore.path id "k")).elim 0 fileSize := by
    decide
  have hlong := text_le_encode longAnswer_text
  rw [longAnswer_length] at hlong
  show 1048576 < totalSize (((Desk.fresh 0 (3600 * second) 1048576).perform id (.begin "k" [])).perform id
    (.finish "k" longAnswer)).store
  generalize (Desk.fresh 0 (3600 * second) 1048576).perform id (.begin "k" []) = d at hclaimed ⊢
  obtain ⟨hsome, hsize⟩ := hclaimed
  obtain ⟨f, hf⟩ := Option.isSome_iff_exists.mp hsome
  rw [hf, Option.elim_some] at hsize
  unfold Desk.perform
  dsimp only
  rw [finish_store, write_complete, hf]
  dsimp only
  have hweight : totalSize { d.store with
      files := d.store.files.insert (IdemStore.path id "k") ⟨encodeEntry longAnswer, d.now⟩
      count := if fileSize f = 0 then d.store.count + 1 else d.store.count
      used := d.store.used + ((encodeEntry longAnswer).length - fileSize f) } =
      totalSize d.store - fileSize f + (encodeEntry longAnswer).length := weight_insert_over hf
  rw [hweight, hsize]
  omega

end Switchboard.Proofs.Account
