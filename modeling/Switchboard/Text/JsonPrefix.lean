import Switchboard.Text.GoJson

namespace Switchboard.Text.Json

theorem skip_append {cs : List Char} (h : skip cs ≠ []) (x : List Char) :
    skip (cs ++ x) = skip cs ++ x := by
  induction cs with
  | nil => exact absurd rfl h
  | cons c cs ih =>
    by_cases hc : isBlank c = true
    · simp only [skip, List.cons_append, List.dropWhile, hc] at h ⊢
      exact ih h
    · simp [skip, List.dropWhile, hc]

theorem skip_append_cons {cs r : List Char} {c : Char} (h : skip cs = c :: r) (x : List Char) :
    skip (cs ++ x) = c :: (r ++ x) := by
  rw [skip_append (by simp [h]), h, List.cons_append]

theorem blank_of_skip {cs : List Char} (h : skip cs = []) : ∀ c ∈ cs, isBlank c = true := by
  induction cs with
  | nil =>
    intro c hc
    cases hc
  | cons d cs ih =>
    rw [skip, List.dropWhile_cons] at h
    split at h
    · rename_i hd
      intro c hc
      rcases List.mem_cons.mp hc with rfl | hc
      · exact hd
      · exact ih h c hc
    · cases h

theorem suffix_of_skip {cs r : List Char} {c : Char} (h : skip cs = c :: r) : r <:+ cs :=
  (List.suffix_cons c r).trans (h ▸ List.dropWhile_suffix _)

/-- A reader that stops before the end of its text does not look beyond where it stops:
it leaves a part of the text, and reads the same when the text goes on. -/
def Stops (read : List Char → Option (α × List Char)) (cs : List Char) (a : α) (r : List Char) : Prop :=
  r <:+ cs ∧ (r ≠ [] → ∀ x, read (cs ++ x) = some (a, r ++ x))

theorem while_append {p : Char → Bool} {cs : List Char} (h : cs.dropWhile p ≠ []) (x : List Char) :
    (cs ++ x).takeWhile p = cs.takeWhile p ∧ (cs ++ x).dropWhile p = cs.dropWhile p ++ x := by
  induction cs with
  | nil => exact absurd rfl h
  | cons c cs ih =>
    by_cases hc : p c = true
    · simp only [List.dropWhile, List.takeWhile, hc, List.cons_append] at h ⊢
      obtain ⟨ht, hd⟩ := ih h
      exact ⟨by rw [ht], hd⟩
    · simp [List.dropWhile, List.takeWhile, hc]

theorem minus_append (cs x : List Char) (h : (minus cs).2 ≠ []) :
    (minus cs).2 <:+ cs ∧ minus (cs ++ x) = ((minus cs).1, (minus cs).2 ++ x) := by
  cases cs with
  | nil => exact absurd rfl h
  | cons c r =>
    by_cases hc : c = '-'
    · simp [minus, hc]
    · simp [minus, hc]

theorem fraction_stops {cs f r : List Char} (h : fraction cs = some (f, r)) : Stops fraction cs f r := by
  unfold fraction at h
  split at h
  · rename_i r'
    simp only [List.span_eq_takeWhile_dropWhile] at h
    split at h
    · cases h
    · rename_i hne
      cases h
      refine ⟨(List.dropWhile_suffix _).trans (List.suffix_cons _ _), fun hr x => ?_⟩
      obtain ⟨ht, hd⟩ := while_append hr x
      simp [fraction, ht, hd, hne]
  · rename_i hdot
    cases h
    refine ⟨List.suffix_refl _, fun hr x => ?_⟩
    cases cs with
    | nil => exact absurd rfl hr
    | cons c r =>
      unfold fraction
      split
      · rename_i r' he
        simp only [List.cons_append, List.cons.injEq] at he
        exact absurd (by rw [he.1]) (hdot r)
      · rfl

theorem exponent_stops {cs e r : List Char} (h : exponent cs = some (e, r)) : Stops exponent cs e r := by
  cases cs with
  | nil =>
    cases h
    exact ⟨List.suffix_refl _, fun hr => absurd rfl hr⟩
  | cons c cs =>
    unfold exponent at h
    dsimp only at h
    split at h
    · rename_i hc
      simp only [List.span_eq_takeWhile_dropWhile] at h
      split at h
      · rename_i r'
        dsimp only at h
        split at h
        · cases h
        · rename_i hne
          cases h
          refine ⟨(List.dropWhile_suffix _).trans ⟨[c, '+'], rfl⟩, fun hr x => ?_⟩
          obtain ⟨ht, hd⟩ := while_append hr x
          simp [exponent, hc, ht, hd, hne]
      · rename_i r'
        dsimp only at h
        split at h
        · cases h
        · rename_i hne
          cases h
          refine ⟨(List.dropWhile_suffix _).trans ⟨[c, '-'], rfl⟩, fun hr x => ?_⟩
          obtain ⟨ht, hd⟩ := while_append hr x
          simp [exponent, hc, ht, hd, hne]
      · rename_i hplus hminus
        dsimp only at h
        split at h
        · cases h
        · rename_i hne
          cases h
          refine ⟨(List.dropWhile_suffix _).trans (List.suffix_cons _ _), fun hr x => ?_⟩
          obtain ⟨ht, hd⟩ := while_append hr x
          cases cs with
          | nil => exact absurd rfl hne
          | cons d ds =>
            have hp : d ≠ '+' := fun he => hplus ds (by rw [he])
            have hm : d ≠ '-' := fun he => hminus ds (by rw [he])
            rw [List.cons_append] at ht hd
            simp [exponent, hc, hp, hm, ht, hd, hne]
    · rename_i hc
      cases h
      refine ⟨List.suffix_refl _, fun _ x => ?_⟩
      simp [exponent, hc]

theorem stringUnits_append (cs : List Char) (p : List Nat × List Char) (h : stringUnits cs = some p) :
    p.2 <:+ cs ∧ ∀ x, stringUnits (cs ++ x) = some (p.1, p.2 ++ x) := by
  fun_induction stringUnits cs generalizing p with
  | case2 r =>
    cases h
    exact ⟨List.suffix_cons _ _, fun x => units_quote _⟩
  | case5 w x y z r n hn _ ih =>
    obtain ⟨q, hq, rfl⟩ := Option.map_eq_some_iff.mp h
    obtain ⟨hs, hx⟩ := ih q hq
    refine ⟨hs.trans ⟨['\\', 'u', w, x, y, z], rfl⟩, fun t => ?_⟩
    simp only [List.cons_append]
    rw [units_hex hn, hx]
    rfl
  | case8 e r hu n hn _ ih =>
    obtain ⟨q, hq, rfl⟩ := Option.map_eq_some_iff.mp h
    obtain ⟨hs, hx⟩ := ih q hq
    refine ⟨hs.trans ⟨['\\', e], rfl⟩, fun t => ?_⟩
    simp only [List.cons_append]
    rw [units_simple hu hn, hx]
    rfl
  | case10 c r hq hb hc ih =>
    obtain ⟨q, hq', rfl⟩ := Option.map_eq_some_iff.mp h
    obtain ⟨hs, hx⟩ := ih q hq'
    refine ⟨hs.trans (List.suffix_cons _ _), fun t => ?_⟩
    simp only [List.cons_append]
    rw [units_plain hq hb (by omega), hx]
    rfl
  | _ => cases h

theorem string_append {cs r : List Char} {s : String} (h : string cs = some (s, r)) :
    r <:+ cs ∧ ∀ x, string (cs ++ x) = some (s, r ++ x) := by
  obtain ⟨p, hp, he⟩ := Option.map_eq_some_iff.mp h
  cases he
  obtain ⟨hs, hx⟩ := stringUnits_append cs p hp
  exact ⟨hs, fun x => by simp [string, hx]⟩

theorem number_stops {cs lit r : List Char} (h : number cs = some (lit, r)) : Stops number cs lit r := by
  simp only [number, List.span_eq_takeWhile_dropWhile] at h
  split at h
  · cases h
  · rename_i hint
    obtain ⟨⟨f, r1⟩, hf, h⟩ := Option.bind_eq_some_iff.mp h
    obtain ⟨⟨e, r2⟩, he, h⟩ := Option.bind_eq_some_iff.mp h
    cases h
    obtain ⟨hs1, hx1⟩ := fraction_stops hf
    obtain ⟨hs2, hx2⟩ := exponent_stops he
    have hdigits : (minus cs).2.dropWhile Char.isDigit <:+ (minus cs).2 := List.dropWhile_suffix _
    have hminus : (minus cs).2 <:+ cs := by
      cases cs with
      | nil => exact List.suffix_refl _
      | cons c cs =>
        dsimp only [minus]
        split
        · exact List.suffix_cons _ _
        · exact List.suffix_refl _
    have hne : ∀ {a b : List Char}, a <:+ b → a ≠ [] → b ≠ [] := by
      rintro a b hab ha rfl
      exact ha (List.suffix_nil.mp hab)
    refine ⟨hs2.trans (hs1.trans (hdigits.trans hminus)), fun hr x => ?_⟩
    have hr1 : r1 ≠ [] := hne hs2 hr
    have hrd := hne hs1 hr1
    obtain ⟨-, hm⟩ := minus_append cs x (hne hdigits hrd)
    obtain ⟨ht, hd⟩ := while_append hrd x
    simp only [number, List.span_eq_takeWhile_dropWhile, hm, ht, hd, hint, if_false, hx1 hr1,
      Option.bind_eq_bind, Option.bind_some]
    have he := hx2 hr x
    dsimp only at he
    rw [he]
    rfl

theorem keyword_append {word cs r : List Char} {j v : Json} (h : keyword word j cs = some (v, r)) :
    r <:+ cs ∧ ∀ x, keyword word j (cs ++ x) = some (v, r ++ x) := by
  unfold keyword at h
  split at h
  · rename_i hp
    cases h
    obtain ⟨t, rfl⟩ := List.isPrefixOf_iff_prefix.mp hp
    refine ⟨List.drop_suffix _ _, fun x => ?_⟩
    simp [keyword]
  · cases h

/-- What a reader with enough fuel does when its text goes on. A number must be followed by
something that ends it. -/
structure Extends (n : Nat) : Prop where
  value : ∀ cs v r, Json.value n cs = some (v, r) → r <:+ cs ∧
    ∀ m x, n ≤ m → (r ≠ [] ∨ ∀ lit, v ≠ .num lit) → Json.value m (cs ++ x) = some (v, r ++ x)
  elements : ∀ cs xs r, Json.elements n cs = some (xs, r) → r <:+ cs ∧
    ∀ m x, n ≤ m → Json.elements m (cs ++ x) = some (xs, r ++ x)
  members : ∀ cs fs r, Json.members n cs = some (fs, r) → '}' :: r <:+ cs ∧
    ∀ m x, n ≤ m → Json.members m (cs ++ x) = some (fs, r ++ x)
  member : ∀ cs f r, Json.member n cs = some (f, r) → r <:+ cs ∧
    ∀ m x, n ≤ m → r ≠ [] → Json.member m (cs ++ x) = some (f, r ++ x)

theorem extends_value {n : Nat} (ih : Extends n) (cs : List Char) (v : Json) (r : List Char)
    (h : value (n + 1) cs = some (v, r)) : r <:+ cs ∧
    ∀ m x, n + 1 ≤ m → (r ≠ [] ∨ ∀ lit, v ≠ .num lit) → value m (cs ++ x) = some (v, r ++ x) := by
  unfold value at h
  split at h
  · cases h
  rename_i c r0 hskip
  have hs0 := suffix_of_skip hskip
  have hfuel : ∀ m, n + 1 ≤ m → ∃ k, m = k + 1 ∧ n ≤ k := fun m hm => ⟨m - 1, by omega, by omega⟩
  split at h
  · rename_i hc
    split at h
    · cases h
    rename_i d r1 hskip1
    split at h
    · rename_i hd
      cases h
      refine ⟨(suffix_of_skip hskip1).trans hs0, fun m x hm _ => ?_⟩
      obtain ⟨k, rfl, hk⟩ := hfuel m hm
      simp [value, skip_append_cons hskip, hc, skip_append_cons hskip1, hd]
    · rename_i hd
      obtain ⟨⟨fs, r2⟩, hm, he⟩ := Option.map_eq_some_iff.mp h
      cases he
      obtain ⟨hs, hx⟩ := ih.members _ _ _ hm
      refine ⟨((List.suffix_cons _ _).trans hs).trans hs0, fun m x hm _ => ?_⟩
      obtain ⟨k, rfl, hk⟩ := hfuel m hm
      simp [value, skip_append_cons hskip, hc, skip_append_cons hskip1, hd, hx k x hk]
  rename_i hc
  split at h
  · rename_i hc2
    split at h
    · cases h
    rename_i d r1 hskip1
    split at h
    · rename_i hd
      cases h
      refine ⟨(suffix_of_skip hskip1).trans hs0, fun m x hm _ => ?_⟩
      obtain ⟨k, rfl, hk⟩ := hfuel m hm
      simp [value, skip_append_cons hskip, hc2, skip_append_cons hskip1, hd]
    · rename_i hd
      obtain ⟨⟨fs, r2⟩, hm, he⟩ := Option.map_eq_some_iff.mp h
      cases he
      obtain ⟨hs, hx⟩ := ih.elements _ _ _ hm
      refine ⟨hs.trans hs0, fun m x hm _ => ?_⟩
      obtain ⟨k, rfl, hk⟩ := hfuel m hm
      simp [value, skip_append_cons hskip, hc2, skip_append_cons hskip1, hd, hx k x hk]
  rename_i hc2
  split at h
  · rename_i hc3
    obtain ⟨⟨s, r2⟩, hm, he⟩ := Option.map_eq_some_iff.mp h
    cases he
    obtain ⟨hs, hx⟩ := string_append hm
    refine ⟨hs.trans hs0, fun m x hm _ => ?_⟩
    obtain ⟨k, rfl, hk⟩ := hfuel m hm
    simp [value, skip_append_cons hskip, hc3, hx x]
  rename_i hc3
  split at h
  · rename_i hc4
    obtain ⟨hs, hx⟩ := keyword_append h
    refine ⟨hs.trans hs0, fun m x hm _ => ?_⟩
    obtain ⟨k, rfl, hk⟩ := hfuel m hm
    simp [value, skip_append_cons hskip, hc4, hx x]
  rename_i hc4
  split at h
  · rename_i hc5
    obtain ⟨hs, hx⟩ := keyword_append h
    refine ⟨hs.trans hs0, fun m x hm _ => ?_⟩
    obtain ⟨k, rfl, hk⟩ := hfuel m hm
    simp [value, skip_append_cons hskip, hc5, hx x]
  rename_i hc5
  split at h
  · rename_i hc6
    obtain ⟨hs, hx⟩ := keyword_append h
    refine ⟨hs.trans hs0, fun m x hm _ => ?_⟩
    obtain ⟨k, rfl, hk⟩ := hfuel m hm
    simp [value, skip_append_cons hskip, hc6, hx x]
  · rename_i hc6
    obtain ⟨⟨lit, r2⟩, hnum, he⟩ := Option.map_eq_some_iff.mp h
    cases he
    obtain ⟨hs, hx⟩ := number_stops hnum
    refine ⟨hs.trans (hskip ▸ List.dropWhile_suffix _), fun m x hm hr => ?_⟩
    obtain ⟨k, rfl, hk⟩ := hfuel m hm
    have hx := hx (hr.resolve_right (fun hn => hn lit rfl)) x
    rw [List.cons_append] at hx
    simp [value, skip_append_cons hskip, hc, hc2, hc3, hc4, hc5, hc6, hx]

theorem extends_elements {n : Nat} (ih : Extends n) (cs : List Char) (xs : List Json) (r : List Char)
    (h : elements (n + 1) cs = some (xs, r)) : r <:+ cs ∧
    ∀ m x, n + 1 ≤ m → elements m (cs ++ x) = some (xs, r ++ x) := by
  unfold elements at h
  split at h
  · cases h
  rename_i v r0 hv
  split at h
  · cases h
  rename_i c r1 hskip
  obtain ⟨hs0, hx0⟩ := ih.value _ _ _ hv
  have hs1 := (suffix_of_skip hskip).trans hs0
  have hr0 : r0 ≠ [] := by
    rintro rfl
    cases hskip
  have hfuel : ∀ m, n + 1 ≤ m → ∃ k, m = k + 1 ∧ n ≤ k := fun m hm => ⟨m - 1, by omega, by omega⟩
  split at h
  · rename_i hc
    obtain ⟨⟨ys, r2⟩, he, hp⟩ := Option.map_eq_some_iff.mp h
    cases hp
    obtain ⟨hs, hx⟩ := ih.elements _ _ _ he
    refine ⟨hs.trans hs1, fun m x hm => ?_⟩
    obtain ⟨k, rfl, hk⟩ := hfuel m hm
    simp [elements, hx0 k x hk (.inl hr0), skip_append_cons hskip, hc, hx k x hk]
  · rename_i hc
    split at h
    · rename_i hc'
      cases h
      refine ⟨hs1, fun m x hm => ?_⟩
      obtain ⟨k, rfl, hk⟩ := hfuel m hm
      simp [elements, hx0 k x hk (.inl hr0), skip_append_cons hskip, hc']
    · cases h

theorem extends_members {n : Nat} (ih : Extends n) (cs : List Char) (fs : List (String × Json))
    (r : List Char) (h : members (n + 1) cs = some (fs, r)) : '}' :: r <:+ cs ∧
    ∀ m x, n + 1 ≤ m → members m (cs ++ x) = some (fs, r ++ x) := by
  unfold members at h
  split at h
  · cases h
  rename_i f r0 hv
  split at h
  · cases h
  rename_i c r1 hskip
  obtain ⟨hs0, hx0⟩ := ih.member _ _ _ hv
  have hs1 : c :: r1 <:+ cs := (hskip ▸ List.dropWhile_suffix _ : c :: r1 <:+ r0).trans hs0
  have hr0 : r0 ≠ [] := by
    rintro rfl
    cases hskip
  have hfuel : ∀ m, n + 1 ≤ m → ∃ k, m = k + 1 ∧ n ≤ k := fun m hm => ⟨m - 1, by omega, by omega⟩
  split at h
  · rename_i hc
    obtain ⟨⟨ys, r2⟩, he, hp⟩ := Option.map_eq_some_iff.mp h
    cases hp
    obtain ⟨hs, hx⟩ := ih.members _ _ _ he
    refine ⟨hs.trans ((List.suffix_cons _ _).trans hs1), fun m x hm => ?_⟩
    obtain ⟨k, rfl, hk⟩ := hfuel m hm
    simp [members, hx0 k x hk hr0, skip_append_cons hskip, hc, hx k x hk]
  · rename_i hc
    split at h
    · rename_i hc'
      cases h
      refine ⟨hc' ▸ hs1, fun m x hm => ?_⟩
      obtain ⟨k, rfl, hk⟩ := hfuel m hm
      simp [members, hx0 k x hk hr0, skip_append_cons hskip, hc']
    · cases h

theorem extends_member {n : Nat} (ih : Extends n) (cs : List Char) (f : String × Json)
    (r : List Char) (h : member (n + 1) cs = some (f, r)) : r <:+ cs ∧
    ∀ m x, n + 1 ≤ m → r ≠ [] → member m (cs ++ x) = some (f, r ++ x) := by
  unfold member at h
  split at h
  · cases h
  rename_i c r0 hskip
  split at h
  · rename_i hc
    split at h
    · cases h
    rename_i key r1 hkey
    split at h
    · cases h
    rename_i d r2 hskip'
    obtain ⟨hs1, hx1⟩ := string_append hkey
    split at h
    · rename_i hd
      obtain ⟨⟨v, r3⟩, hv, hp⟩ := Option.map_eq_some_iff.mp h
      cases hp
      obtain ⟨hs, hx⟩ := ih.value _ _ _ hv
      refine ⟨hs.trans ((suffix_of_skip hskip').trans (hs1.trans (suffix_of_skip hskip))),
        fun m x hm hr => ?_⟩
      obtain ⟨k, rfl, hk⟩ : ∃ k, m = k + 1 ∧ n ≤ k := ⟨m - 1, by omega, by omega⟩
      simp [member, skip_append_cons hskip, hc, hx1 x, skip_append_cons hskip', hd,
        hx k x hk (.inl hr)]
    · cases h
  · cases h

theorem extends_all (n : Nat) : Extends n := by
  induction n with
  | zero =>
    refine ⟨?_, ?_, ?_, ?_⟩
    · intro cs v r h
      simp [value] at h
    · intro cs xs r h
      simp [elements] at h
    · intro cs fs r h
      simp [members] at h
    · intro cs f r h
      simp [member] at h
  | succ n ih =>
    exact ⟨extends_value ih, extends_elements ih, extends_members ih, extends_member ih⟩

/-- What is read from a text that starts with a brace is an object, and ends with one. -/
theorem value_object {n : Nat} {cs r : List Char} {v : Json} (h : value n ('{' :: cs) = some (v, r)) :
    '}' :: r <:+ cs ∧ ∀ lit, v ≠ .num lit := by
  cases n with
  | zero => simp [value] at h
  | succ n =>
    have hb : skip ('{' :: cs) = '{' :: cs := skip_cons (by decide) cs
    unfold value at h
    rw [hb] at h
    simp only [if_true] at h
    split at h
    · cases h
    rename_i d r1 hskip
    split at h
    · rename_i hd
      cases h
      exact ⟨hd ▸ hskip ▸ List.dropWhile_suffix _, by rintro _ ⟨⟩⟩
    · obtain ⟨⟨fs, r2⟩, hm, hp⟩ := Option.map_eq_some_iff.mp h
      cases hp
      exact ⟨((extends_all n).members _ _ _ hm).1, by rintro _ ⟨⟩⟩

/-- The first characters of an object's text are not the text of anything. -/
theorem parse_truncated {cs x : List Char} {j : Json} (h : parse ('{' :: cs ++ x) = some j)
    (he : ∀ c ∈ x.getLast?, isBlank c = false) (hx : x ≠ []) : parse ('{' :: cs) = none := by
  by_contra hp
  obtain ⟨v, hv⟩ := Option.ne_none_iff_exists'.mp hp
  unfold parse at h hv
  split at hv
  swap
  · cases hv
  rename_i w r hw
  split at hv
  swap
  · cases hv
  rename_i hr
  split at h
  swap
  · cases h
  rename_i w' r' hw'
  split at h
  swap
  · cases h
  rename_i hr'
  have hlong := ((extends_all _).value _ _ _ hw).2 (('{' :: cs ++ x).length + 1) x
    (by simp only [List.length_append]; omega) (.inr (value_object hw).2)
  rw [hlong] at hw'
  cases hw'
  have hblank := blank_of_skip hr'
  have hlast := List.getLast_mem hx
  have hb := hblank _ (List.mem_append_right r hlast)
  rw [he _ (List.getLast?_eq_some_getLast hx)] at hb
  cases hb

/-- Nor are they when something that is not ASCII follows. -/
theorem parse_garbled {cs x : List Char} (h : ∀ c ∈ x, 0x80 ≤ c.toNat) (hx : x ≠ []) :
    parse ('{' :: cs ++ x) = none := by
  by_contra hp
  obtain ⟨v, hv⟩ := Option.ne_none_iff_exists'.mp hp
  unfold parse at hv
  split at hv
  swap
  · cases hv
  rename_i w r hw
  split at hv
  swap
  · cases hv
  rename_i hr
  have hblank := blank_of_skip hr
  have hlow : ∀ c ∈ '}' :: r, c.toNat < 0x80 := by
    intro c hc
    rcases List.mem_cons.mp hc with rfl | hc
    · decide
    · have hb := hblank c hc
      simp only [isBlank, Bool.or_eq_true, beq_iff_eq] at hb
      rcases hb with ((rfl | rfl) | rfl) | rfl <;> decide
  obtain ⟨front, hfront⟩ : '}' :: r <:+ cs ++ x := (value_object hw).1
  have hlast : (cs ++ x).getLast? = some (x.getLast hx) := by
    rw [List.getLast?_append_of_ne_nil _ hx, List.getLast?_eq_some_getLast hx]
  rw [← hfront, List.getLast?_append_of_ne_nil _ (List.cons_ne_nil _ _)] at hlast
  have hmem : x.getLast hx ∈ '}' :: r := List.mem_of_getLast? hlast
  have hhigh := h _ (List.getLast_mem hx)
  have := hlow _ hmem
  omega

end Switchboard.Text.Json

namespace Switchboard.Text.GoJson

/-- A file that holds the first bytes of an object only holds no value. -/
theorem scan_truncated {fs : List (String × Json)} (h : Json.Over (fun _ => True) (.obj fs)) {n : Nat}
    (hn : n < (marshal (.obj fs)).length) : scan ((marshal (.obj fs)).take n) = none := by
  obtain ⟨p, c, x, w, hcs, ht, hw, hc⟩ := utf8_take _ hn
  have hfull : Json.parse (p ++ c :: x) = some (.obj fs) := by
    rw [← hcs]
    exact Json.parse_print (Json.Over.mono (fun c _ => escape_faithful c) _ h)
  have hprint : '{' :: (Json.printFields escape fs ++ ['}']) = p ++ c :: x := by
    rw [← hcs, Json.print]
    rfl
  have hnone : Json.parse (p ++ decodeUtf8 w) = none := by
    cases p with
    | nil =>
      obtain ⟨rfl, -⟩ := List.cons.inj hprint
      rw [hc (by decide)]
      decide
    | cons d p =>
      obtain ⟨rfl, hrest⟩ := List.cons.inj hprint
      by_cases hw0 : w = []
      · subst hw0
        rw [show decodeUtf8 [] = [] from rfl, List.append_nil]
        refine Json.parse_truncated hfull ?_ (List.cons_ne_nil _ _)
        have hlast : (Json.printFields escape fs ++ ['}']).getLast? = (p ++ c :: x).getLast? :=
          congrArg List.getLast? hrest
        rw [List.getLast?_append_of_ne_nil _ (List.cons_ne_nil _ _),
          List.getLast?_append_of_ne_nil _ (List.cons_ne_nil _ _)] at hlast
        rw [← hlast]
        intro e he
        obtain rfl : '}' = e := Option.some.inj he
        rfl
      · refine Json.parse_garbled (decode_high hw 0) ?_
        cases w with
        | nil => exact absurd rfl hw0
        | cons b w => exact List.cons_ne_nil _ _
  rw [marshal, ht, scan, decode_append, hnone]
  rfl

end Switchboard.Text.GoJson
