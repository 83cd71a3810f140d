import Switchboard.Text.GoJson

namespace Switchboard.Text.GoJson

/-- The first member that a field of this name would take. -/
def member? (name : String) : List (String × Json) → Option Json
  | [] => none
  | (key, v) :: fs => if foldName key = foldName name then some v else member? name fs

/-- The same of any value, `null` where there is no such member. -/
def member (name : String) : Json → Json
  | .obj fs => (member? name fs).getD .null
  | _ => .null

mutual
/-- No object has two members that one field would take. -/
def distinct : Json → Bool
  | .arr xs => distinctElems xs
  | .obj fs => decide ((fs.map (fun f => foldName f.1)).Nodup) && distinctFields fs
  | _ => true
termination_by structural x => x
def distinctElems : List Json → Bool
  | [] => true
  | x :: xs => distinct x && distinctElems xs
termination_by structural x => x
def distinctFields : List (String × Json) → Bool
  | [] => true
  | f :: fs => distinctField f && distinctFields fs
termination_by structural x => x
def distinctField : String × Json → Bool
  | (_, v) => distinct v
termination_by structural x => x
end

theorem distinct_of_elems {xs : List Json} (h : distinctElems xs = true) {x : Json} (hx : x ∈ xs) :
    distinct x = true := by
  induction xs with
  | nil => cases hx
  | cons y ys ih =>
    obtain ⟨hy, hys⟩ := Bool.and_eq_true_iff.mp h
    rcases List.mem_cons.mp hx with rfl | hx
    · exact hy
    · exact ih hys hx

theorem distinct_of_fields {fs : List (String × Json)} (h : distinctFields fs = true)
    {f : String × Json} (hf : f ∈ fs) : distinct f.2 = true := by
  induction fs with
  | nil => cases hf
  | cons g gs ih =>
    obtain ⟨key, v⟩ := g
    obtain ⟨hg, hgs⟩ := Bool.and_eq_true_iff.mp h
    rcases List.mem_cons.mp hf with rfl | hf
    · exact hg
    · exact ih hgs hf

theorem member_obj (name : String) (fs : List (String × Json)) :
    member name (.obj fs) = (member? name fs).getD .null := rfl

theorem member?_mem {name : String} {fs : List (String × Json)} {v : Json}
    (h : member? name fs = some v) : ∃ key, (key, v) ∈ fs ∧ foldName key = foldName name := by
  induction fs with
  | nil => cases h
  | cons f fs ih =>
    obtain ⟨key, w⟩ := f
    unfold member? at h
    split at h
    · rename_i hkey
      obtain rfl := Option.some.inj h
      exact ⟨key, List.mem_cons_self, hkey⟩
    · obtain ⟨key', hmem, hkey'⟩ := ih h
      exact ⟨key', List.mem_cons_of_mem _ hmem, hkey'⟩

theorem over_of_member? {P : Char → Prop} {name : String} {fs : List (String × Json)} {v : Json}
    (h : member? name fs = some v) (hfs : Json.OverFields P fs) : Json.Over P v := by
  induction fs with
  | nil => cases h
  | cons f fs ih =>
    obtain ⟨key, w⟩ := f
    unfold member? at h
    split at h
    · obtain rfl := Option.some.inj h
      exact hfs.1.2
    · exact ih h hfs.2

theorem depth_of_member? {name : String} {fs : List (String × Json)} {v : Json}
    (h : member? name fs = some v) : v.depth ≤ Json.depthFields fs := by
  induction fs with
  | nil => cases h
  | cons f fs ih =>
    obtain ⟨key, w⟩ := f
    unfold member? at h
    split at h
    · obtain rfl := Option.some.inj h
      exact Nat.le_max_left _ _
    · exact (ih h).trans (Nat.le_max_right _ _)

theorem member?_none {name : String} {fs : List (String × Json)}
    (h : ∀ f ∈ fs, foldName f.1 ≠ foldName name) : member? name fs = none := by
  induction fs with
  | nil => rfl
  | cons f fs ih =>
    obtain ⟨key, v⟩ := f
    unfold member?
    rw [if_neg (h (key, v) List.mem_cons_self)]
    exact ih (fun g hg => h g (List.mem_cons_of_mem _ hg))

theorem distinct_member {j : Json} (h : distinct j = true) (name : String) :
    distinct (member name j) = true := by
  cases j with
  | obj fs =>
    rw [member_obj]
    cases hm : member? name fs with
    | none => rfl
    | some v =>
      obtain ⟨key, hmem, -⟩ := member?_mem hm
      obtain ⟨-, hfs⟩ := Bool.and_eq_true_iff.mp h
      exact distinct_of_fields hfs hmem
  | _ => rfl

theorem findField_mem {fields : List (Field α)} {key : String} {f : Field α}
    (h : findField fields key = some f) : f ∈ fields ∧ foldName f.name = foldName key := by
  unfold findField at h
  split at h
  · rename_i g hg
    obtain rfl := Option.some.inj h
    have hname : g.name = key := by simpa using List.find?_some hg
    exact ⟨List.mem_of_find?_eq_some hg, by rw [hname]⟩
  · have hfold := List.find?_some h
    exact ⟨List.mem_of_find?_eq_some h, by simpa using hfold⟩

theorem findField_none {fields : List (Field α)} {key : String}
    (h : findField fields key = none) : ∀ f ∈ fields, foldName f.name ≠ foldName key := by
  unfold findField at h
  split at h
  · cases h
  · intro f hf hfold
    have hnot := List.find?_eq_none.mp h f hf
    exact hnot (by simp [hfold])

/-- The part `get` of a variable is what the member `name` is decoded into, and no other
member touches it. -/
structure Reads (fields : List (Field α)) (name : String) (get : α → β) (d : Decoder β) : Prop where
  found : ∃ f ∈ fields, foldName f.name = foldName name
  own : ∀ f ∈ fields, foldName f.name = foldName name →
    ∀ a v a', f.decode a v = some a' → d (get a) v = some (get a')
  other : ∀ f ∈ fields, foldName f.name ≠ foldName name →
    ∀ a v a', f.decode a v = some a' → get a' = get a

/-- What one field of a decoder does to the member `name`. -/
def Slot (name : String) (get : α → β) (d : Decoder β) (f : Field α) : Prop :=
  ∀ a v a', f.decode a v = some a' →
    if foldName f.name = foldName name then d (get a) v = some (get a') else get a' = get a

theorem slot_field {γ : Type} {name n : String} {get : α → β} {d : Decoder β} {g : α → γ}
    {s : α → γ → α} {d' : Decoder γ} : Slot name get d (field n g s d') ↔
    ∀ a v x, d' (g a) v = some x →
      if foldName n = foldName name then d (get a) v = some (get (s a x)) else get (s a x) = get a := by
  simp only [Slot, field, Option.map_eq_some_iff]
  refine ⟨fun h a v x hx => h a v _ ⟨x, hx, rfl⟩, fun h a v a' ha => ?_⟩
  obtain ⟨x, hx, rfl⟩ := ha
  exact h a v x hx

theorem Reads.of {fields : List (Field α)} {name : String} {get : α → β} {d : Decoder β}
    (hfound : ∃ f ∈ fields, foldName f.name = foldName name)
    (h : ∀ f ∈ fields, Slot name get d f) : Reads fields name get d := by
  refine ⟨hfound, fun f hf hname a v a' hdecode => ?_, fun f hf hname a v a' hdecode => ?_⟩
  · have hown := h f hf a v a' hdecode
    rwa [if_pos hname] at hown
  · have hother := h f hf a v a' hdecode
    rwa [if_neg hname] at hother

/-- What decoding the members one by one makes of one part. -/
def Taken (get : α → β) (d : Decoder β) (a a' : α) : Option Json → Prop
  | none => get a' = get a
  | some v => d (get a) v = some (get a')

theorem members_taken {fields : List (Field α)} {name : String} {get : α → β} {d : Decoder β}
    (hr : Reads fields name get d) {fs : List (String × Json)} {a a' : α}
    (hn : (fs.map (fun f => foldName f.1)).Nodup) (h : members false fields a fs = some a') :
    Taken get d a a' (member? name fs) := by
  induction fs generalizing a with
  | nil =>
    obtain rfl := Option.some.inj h
    exact rfl
  | cons f fs ih =>
    obtain ⟨key, v⟩ := f
    obtain ⟨hnot, hn⟩ := List.nodup_cons.mp hn
    unfold members at h
    unfold member?
    cases hfind : findField fields key with
    | none =>
      rw [hfind] at h
      obtain ⟨g, hg, hname⟩ := hr.found
      rw [if_neg (fun heq => findField_none hfind g hg (hname.trans heq.symm))]
      exact ih hn h
    | some g =>
      obtain ⟨hg, hname⟩ := findField_mem hfind
      rw [hfind] at h
      dsimp only at h
      cases hdecode : g.decode a v with
      | none =>
        rw [hdecode] at h
        cases h
      | some b =>
        rw [hdecode] at h
        have hrest := ih hn h
        split
        · rename_i hkey
          have hnone : member? name fs = none := by
            refine member?_none (fun f' hf' heq => hnot ?_)
            exact List.mem_map.mpr ⟨f', hf', heq.trans hkey.symm⟩
          rw [hnone] at hrest
          have hown := hr.own g hg (hname.trans hkey) a v b hdecode
          have hsame : get a' = get b := hrest
          exact hown.trans (congrArg some hsame.symm)
        · rename_i hkey
          have hsame : get b = get a := hr.other g hg (fun heq => hkey (hname.symm.trans heq)) a v b hdecode
          cases hm : member? name fs with
          | none =>
            rw [hm] at hrest
            exact hrest.trans hsame
          | some w =>
            rw [hm] at hrest
            have hw : d (get b) w = some (get a') := hrest
            rw [hsame] at hw
            exact hw

/-- Decoding a whole object, where `null` leaves the part as it is. -/
theorem struct_taken {fields : List (Field α)} {name : String} {get : α → β} {d : Decoder β}
    (hr : Reads fields name get d) {j : Json} {a a' : α} (hj : distinct j = true)
    (hnull : d (get a) .null = some (get a)) (h : struct false fields a j = some a') :
    d (get a) (member name j) = some (get a') := by
  cases j with
  | null =>
    obtain rfl := Option.some.inj h
    exact hnull
  | obj fs =>
    obtain ⟨hn, -⟩ := Bool.and_eq_true_iff.mp hj
    have htaken := members_taken hr (of_decide_eq_true hn) h
    rw [member_obj]
    cases hm : member? name fs with
    | none =>
      rw [hm] at htaken
      have hsame : get a' = get a := htaken
      rw [hsame]
      exact hnull
    | some v =>
      rw [hm] at htaken
      exact htaken
  | bool b => cases h
  | num lit => cases h
  | str s => cases h
  | arr xs => cases h

/-- A single raw field takes the member as it is. -/
theorem struct_raw {name : String} {fs : List (String × Json)}
    (hn : (fs.map (fun f => foldName f.1)).Nodup) :
    struct false [field name id (fun _ v => v) raw] none (.obj fs) = some (member? name fs) := by
  have hsome : ∀ (fs : List (String × Json)) (a : Option Json),
      ∃ b, members false [field name id (fun _ v => v) raw] a fs = some b := by
    intro fs
    induction fs with
    | nil => exact fun a => ⟨a, rfl⟩
    | cons f fs ih =>
      intro a
      obtain ⟨key, v⟩ := f
      unfold members
      cases hfind : findField [field name id (fun _ v => v) raw] key with
      | none => exact ih a
      | some g =>
        obtain rfl := List.mem_singleton.mp (findField_mem hfind).1
        exact ih (some v)
  have hreads : Reads [field name id (fun _ v => v) raw] name id raw := by
    constructor
    · simp [field]
    · simp [field]
    · simp [field]
  obtain ⟨b, hb⟩ := hsome fs none
  have htaken := members_taken hreads hn hb
  show members false _ none fs = _
  rw [hb]
  cases hm : member? name fs with
  | none =>
    rw [hm] at htaken
    exact congrArg some htaken
  | some v =>
    rw [hm] at htaken
    exact htaken.symm

def elems : Json → List Json
  | .arr xs => xs
  | _ => []

def stringOf : Json → String
  | .str s => s
  | _ => ""

theorem distinct_elems {j : Json} (h : distinct j = true) : ∀ x ∈ elems j, distinct x = true := by
  cases j with
  | arr xs => exact fun x hx => distinct_of_elems h hx
  | _ => exact fun _ hx => nomatch hx

theorem slice_elems {zero : α} {d : Decoder α} {j : Json} {as : List α}
    (h : slice zero d [] j = some as) : List.Forall₂ (fun x a => d zero x = some a) (elems j) as := by
  have hnil : ∀ (xs : List Json) (as : List α), elements zero d [] xs = some as →
      List.Forall₂ (fun x a => d zero x = some a) xs as := by
    intro xs
    induction xs with
    | nil =>
      intro as h
      obtain rfl := Option.some.inj h
      exact .nil
    | cons x xs ih =>
      intro as h
      unfold elements at h
      split at h
      · rename_i a as' ha has
        obtain rfl := Option.some.inj h
        exact .cons ha (ih as' has)
      · cases h
  cases j with
  | null =>
    obtain rfl := Option.some.inj h
    exact .nil
  | arr xs => exact hnil xs as h
  | bool b => cases h
  | num lit => cases h
  | str s => cases h
  | obj fs => cases h

theorem string_read {j : Json} {s : String} (h : string "" j = some s) : s = stringOf j := by
  cases j with
  | null => exact (Option.some.inj h).symm
  | str t => exact (Option.some.inj h).symm
  | bool b => cases h
  | num lit => cases h
  | arr xs => cases h
  | obj fs => cases h

/-- With distinct names, a member is found by its name. -/
theorem member?_of_mem {name key : String} {v : Json} {fs : List (String × Json)}
    (hn : (fs.map (fun f => foldName f.1)).Nodup) (hmem : (key, v) ∈ fs)
    (hkey : foldName key = foldName name) : member? name fs = some v := by
  induction fs with
  | nil => cases hmem
  | cons f fs ih =>
    obtain ⟨key', w⟩ := f
    obtain ⟨hnot, hn⟩ := List.nodup_cons.mp hn
    unfold member?
    rcases List.mem_cons.mp hmem with heq | hmem
    · obtain ⟨rfl, rfl⟩ := Prod.mk.inj heq
      rw [if_pos hkey]
    · rw [if_neg]
      · exact ih hn hmem
      · intro hkey'
        exact hnot (List.mem_map.mpr ⟨(key, v), hmem, hkey.trans hkey'.symm⟩)

/-- What a raw field holds after decoding, by what each member of its name is. -/
theorem struct_raw_taken {fields : List (Field α)} {name : String} {get : α → Option Json}
    (hr : Reads fields name get raw) {fs : List (String × Json)} {a a' : α}
    (hj : distinct (.obj fs) = true) (h : struct false fields a (.obj fs) = some a') {key : String}
    {v : Json} (hmem : (key, v) ∈ fs) (hkey : foldName key = foldName name) : get a' = some v := by
  have hn : (fs.map (fun f => foldName f.1)).Nodup :=
    of_decide_eq_true (Bool.and_eq_true_iff.mp hj).1
  have htaken := members_taken hr hn h
  rw [member?_of_mem hn hmem hkey] at htaken
  exact (Option.some.inj htaken).symm

/-- Every member has one of the names, as it is spelled, and none has the name of another. -/
structure Exact (names : List String) (fs : List (String × Json)) : Prop where
  named : ∀ f ∈ fs, f.1 ∈ names
  once : (fs.map Prod.fst).Nodup

theorem Exact.folded {names : List String} {fs : List (String × Json)} (h : Exact names fs)
    (hnames : ∀ a ∈ names, ∀ b ∈ names, foldName a = foldName b → a = b) :
    (fs.map (fun f => foldName f.1)).Nodup := by
  have hmap : fs.map (fun f => foldName f.1) = (fs.map Prod.fst).map foldName := by
    rw [List.map_map]
    rfl
  rw [hmap]
  apply h.once.map_on
  intro a ha b hb hab
  obtain ⟨f, hf, rfl⟩ := List.mem_map.mp ha
  obtain ⟨g, hg, rfl⟩ := List.mem_map.mp hb
  exact hnames _ (h.named f hf) _ (h.named g hg) hab

/-- Where names are spelled as they should be, folding finds no more than their letters do. -/
theorem Exact.member?_eq {names : List String} {fs : List (String × Json)} (h : Exact names fs)
    (hnames : ∀ a ∈ names, ∀ b ∈ names, foldName a = foldName b → a = b) {name : String}
    (hname : name ∈ names) : member? name fs = fs.lookup name := by
  obtain ⟨hnamed, -⟩ := h
  induction fs with
  | nil => rfl
  | cons f fs ih =>
    obtain ⟨key, v⟩ := f
    obtain ⟨hkey, hrest⟩ := List.forall_mem_cons.mp hnamed
    rw [member?, List.lookup_cons]
    by_cases heq : name = key
    · subst heq
      rw [if_pos rfl, beq_self_eq_true]
    · rw [if_neg (fun hfold => heq (hnames _ hkey _ hname hfold).symm), beq_false_of_ne heq]
      exact ih hrest

/-- A struct that allows no other fields matches each member to one, up to case. -/
theorem members_matched {fields : List (Field α)} {fs : List (String × Json)} {a a' : α}
    (h : members true fields a fs = some a') :
    ∀ f ∈ fs, ∃ g ∈ fields, foldName f.1 = foldName g.name := by
  induction fs generalizing a with
  | nil => exact fun f hf => nomatch hf
  | cons f fs ih =>
    obtain ⟨key, v⟩ := f
    unfold members at h
    cases hfind : findField fields key with
    | none => simp [hfind] at h
    | some g =>
      simp only [hfind] at h
      cases hdecode : g.decode a v with
      | none => simp [hdecode] at h
      | some b =>
        simp only [hdecode] at h
        obtain ⟨hg, hname⟩ := findField_mem hfind
        exact List.forall_mem_cons.mpr ⟨⟨g, hg, hname.symm⟩, ih h⟩

theorem members_of_strict {fields : List (Field α)} {fs : List (String × Json)} {a a' : α}
    (h : members true fields a fs = some a') : members false fields a fs = some a' := by
  induction fs generalizing a with
  | nil => exact h
  | cons f fs ih =>
    obtain ⟨key, v⟩ := f
    unfold members at h ⊢
    cases hfind : findField fields key with
    | none => simp [hfind] at h
    | some g =>
      simp only [hfind] at h ⊢
      cases hdecode : g.decode a v with
      | none => simp [hdecode] at h
      | some b =>
        simp only [hdecode] at h ⊢
        exact ih h

/-- What an object has under a name, by the name's very letters. -/
def under? (name : String) : Json → Option Json
  | .obj fs => fs.lookup name
  | _ => none

theorem under?_map {fs : List (String × Json)} (hn : (fs.map Prod.fst).Nodup) (name : String) :
    under? name (map fs) = fs.lookup name :=
  lookup_sortKeys hn name

/-- A value that is read back as it was written. -/
structure Fits (n : Nat) (j : Json) : Prop where
  spelled : Json.Over (fun _ => True) j
  depth : j.depth ≤ n

theorem Fits.str (n : Nat) (s : String) : Fits n (.str s) := ⟨Json.spelled_any s, Nat.zero_le n⟩

theorem Fits.bool (n : Nat) (b : Bool) : Fits n (.bool b) := ⟨trivial, Nat.zero_le n⟩

theorem Fits.num (n : Nat) {lit : List Char} (h : Json.Numeral lit) : Fits n (.num lit) :=
  ⟨h, Nat.zero_le n⟩

theorem Fits.int (n : Nat) (z : Int) : Fits n (Json.int z) := Fits.num n (Json.numeral_int z)

theorem Fits.arr {n : Nat} {xs : List Json} (h : ∀ x ∈ xs, Fits n x) : Fits (n + 1) (.arr xs) := by
  have hall : Json.OverElems (fun _ => True) xs ∧ Json.depthElems xs ≤ n := by
    induction xs with
    | nil => exact ⟨trivial, Nat.zero_le n⟩
    | cons x xs ih =>
      obtain ⟨hx, hxs⟩ := List.forall_mem_cons.mp h
      obtain ⟨hover, hdepth⟩ := ih hxs
      exact ⟨⟨hx.spelled, hover⟩, Nat.max_le.mpr ⟨hx.depth, hdepth⟩⟩
  exact ⟨hall.1, Nat.succ_le_succ hall.2⟩

theorem Fits.field {n : Nat} {f : String × Json} (h : Fits n f.2) :
    Json.OverField (fun _ => True) f := by
  cases f
  exact ⟨Json.spelled_any _, h.spelled⟩

theorem Fits.map {n : Nat} {fs : List (String × Json)} (h : ∀ f ∈ fs, Fits n f.2) :
    Fits (n + 1) (map fs) :=
  ⟨over_map (fun f hf => (h f hf).field), depth_map (fun f hf => (h f hf).depth)⟩

theorem Fits.obj {n : Nat} {fs : List (String × Json)} (h : ∀ f ∈ fs, Fits n f.2) :
    Fits (n + 1) (.obj fs) :=
  ⟨overFields_of_forall (fun f hf => (h f hf).field),
    Nat.succ_le_succ (depthFields_le (fun f hf => (h f hf).depth))⟩

theorem Fits.scan {n : Nat} {j : Json} (h : Fits n j) (hn : n ≤ maxNestingDepth) :
    scan (marshal j) = some j :=
  scan_marshal h.spelled (h.depth.trans hn)

end Switchboard.Text.GoJson
