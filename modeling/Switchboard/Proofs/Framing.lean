import Switchboard.Gateway.Stream

namespace Switchboard.Proofs.Framing
open Text Gateway

section
variable {σ ε : Type} (fn : σ → Bytes → σ × Option ε)

/-- The callback is called for each event in turn, until it fails. -/
def deliver (s : σ) (err : Option StreamError) : List Bytes → σ × Option (ReadError ε)
  | [] => (s, err.map .stream)
  | p :: ps =>
    match fn s p with
    | (s, some e) => (s, some (.callback e))
    | (s, none) => deliver s err ps

theorem deliver_append (s : σ) (err : Option StreamError) (data : Bytes) (ps : List Bytes) :
    deliver fn s err (dispatched data ++ ps) =
      match dispatchSSE fn s data with
      | (s, some e) => (s, some (.callback e))
      | (s, none) => deliver fn s err ps := by
  unfold dispatched dispatchSSE
  split <;> rfl

/-- The loop makes the calls for the events that its lines amount to. -/
theorem sseLoop_eq (s : σ) (data : Bytes) (err : Option StreamError) (lines : List Bytes) :
    sseLoop fn err s data lines =
      deliver fn s (sseFrom err data lines).2 (sseFrom err data lines).1 := by
  induction lines generalizing s data with
  | nil =>
    cases err with
    | some e => rfl
    | none =>
      have hnil := deliver_append fn s none data []
      rw [List.append_nil] at hnil
      simp only [sseLoop, sseFrom, Option.isSome_none, Bool.false_eq_true, if_false, hnil]
      cases dispatchSSE fn s data with
      | mk s e => cases e <;> rfl
  | cons line lines ih =>
    rw [sseLoop, sseFrom]
    split
    · dsimp only
      rw [deliver_append]
      cases dispatchSSE fn s data with
      | mk s e =>
        cases e with
        | some e => rfl
        | none => exact ih s []
    · split
      · dsimp only
        split
        · rfl
        · exact ih s _
      · exact ih s data

theorem readSSEInto_eq (s : σ) (body : Body) :
    readSSEInto fn s body = deliver fn s (readSSE body).2 (readSSE body).1 :=
  sseLoop_eq fn s [] _ _

end

inductive Ending where
  | lf
  | crlf
deriving DecidableEq, Repr

def Ending.bytes : Ending → Bytes
  | .lf => [10]
  | .crlf => [13, 10]

/-- A line of a stream: data, a comment or another field, or nothing. -/
inductive Line where
  | data (v : Bytes)
  | other (c : Bytes)
  | blank
deriving DecidableEq, Repr

def Line.text : Line → Bytes
  | .data v => ascii "data: " ++ v
  | .other c => c
  | .blank => []

/-- A line that reads as what it is. -/
def Line.Valid : Line → Prop
  | .data v => 10 ∉ v ∧ v.getLast? ≠ some 13 ∧ v.length < 1000000
  | .other c => 10 ∉ c ∧ dropCR c ≠ [] ∧ (ascii "data:").isPrefixOf c = false ∧ c.length < 1000000
  | .blank => True

instance : (l : Line) → Decidable l.Valid
  | .data v => inferInstanceAs (Decidable (10 ∉ v ∧ v.getLast? ≠ some 13 ∧ v.length < 1000000))
  | .other c => inferInstanceAs (Decidable (10 ∉ c ∧ dropCR c ≠ [] ∧
      (ascii "data:").isPrefixOf c = false ∧ c.length < 1000000))
  | .blank => inferInstanceAs (Decidable True)

/-- The lines of one payload, with others among them. -/
inductive Filled : List Bytes → List Line → Prop where
  | nil : Filled [] []
  | data {v : Bytes} {vs : List Bytes} {ls : List Line} (h : Filled vs ls) :
      Filled (v :: vs) (.data v :: ls)
  | other {c : Bytes} {vs : List Bytes} {ls : List Line} (h : Filled vs ls) :
      Filled vs (.other c :: ls)

/-- Lines that end a payload: at least one is blank, and none is data. -/
def Gap (ls : List Line) : Prop := .blank ∈ ls ∧ ∀ v, .data v ∉ ls

/-- The lines of a list of payloads. The last of them may end where the input does. -/
inductive Encodes : List (List Bytes) → List Line → Prop where
  | nil {ls : List Line} (h : ∀ v, .data v ∉ ls) : Encodes [] ls
  | last {p : List Bytes} {ls : List Line} (hne : p ≠ []) (h : Filled p ls) : Encodes [p] ls
  | cons {p : List Bytes} {ps : List (List Bytes)} {ls gap rest : List Line} (hne : p ≠ [])
      (h : Filled p ls) (hgap : Gap gap) (hrest : Encodes ps rest) :
      Encodes (p :: ps) (ls ++ (gap ++ rest))

/-- A payload as it is handed on. -/
def joined (p : List Bytes) : Bytes := [10].intercalate p

/-- The lines with their endings. -/
def render (ls : List (Line × Ending)) : Bytes := ls.flatMap (fun l => l.1.text ++ l.2.bytes)

/-- What a line may be read as. -/
def Shows : Line → Bytes → Prop
  | .data v, b => b = ascii "data: " ++ v
  | .other _, b => b ≠ [] ∧ (ascii "data:").isPrefixOf b = false
  | .blank, b => b = []

/-- A payload as it is gathered, with a line feed after each line. -/
def gathered (p : List Bytes) : Bytes := p.flatMap (fun v => v ++ [10])

theorem gathered_eq {p : List Bytes} (h : p ≠ []) : gathered p = joined p ++ [10] := by
  induction p with
  | nil => exact absurd rfl h
  | cons v p ih =>
    cases p with
    | nil => simp [gathered, joined, List.intercalate]
    | cons w p =>
      have ih := ih (by simp)
      have hjoin : joined (v :: w :: p) = v ++ [10] ++ joined (w :: p) := by
        simp [joined, List.intercalate]
      rw [hjoin, List.append_assoc, List.append_assoc, ← ih]
      simp [gathered]

theorem dispatched_gathered {p : List Bytes} (h : p ≠ []) : dispatched (gathered p) = [joined p] := by
  rw [gathered_eq h]
  simp [dispatched]

section
variable {err : Option StreamError} {data : Bytes} {ls : List Line} {seen rest : List Bytes}

theorem sseFrom_data {v : Bytes} (h : data.length + v.length + 1 ≤ 1048576) :
    sseFrom err data ((ascii "data: " ++ v) :: rest) = sseFrom err (data ++ (v ++ [10])) rest := by
  have hdata : ascii "data: " = [100, 97, 116, 97, 58, 32] := by decide
  have hname : ascii "data:" = [100, 97, 116, 97, 58] := by decide
  have hspace : ascii " " = [32] := by decide
  rw [sseFrom, hdata, hname, hspace, if_neg (by simp), if_pos (by simp [List.isPrefixOf])]
  simp only [List.cons_append, List.nil_append, List.drop_succ_cons, List.drop_zero, trimStart,
    List.isPrefixOf, beq_self_eq_true, Bool.true_and, if_true, List.length_cons, List.length_nil,
    Nat.zero_add]
  rw [if_neg (by simp only [List.length_append, List.length_singleton]; omega), List.append_assoc]

theorem sseFrom_other {b : Bytes} (hne : b ≠ []) (h : (ascii "data:").isPrefixOf b = false) :
    sseFrom err data (b :: rest) = sseFrom err data rest := by
  rw [sseFrom, if_neg hne, if_neg (by simp [h])]

theorem sseFrom_blank : sseFrom err data ([] :: rest) =
    (dispatched data ++ (sseFrom err [] rest).1, (sseFrom err [] rest).2) := by
  rw [sseFrom, if_pos rfl]

/-- The lines of a payload are gathered. -/
theorem sseFrom_filled {p : List Bytes} (h : Filled p ls) (hs : List.Forall₂ Shows ls seen)
    (hlen : data.length + (gathered p).length ≤ 1048576) :
    sseFrom err data (seen ++ rest) = sseFrom err (data ++ gathered p) rest := by
  induction h generalizing data seen with
  | nil =>
    cases hs
    simp [gathered]
  | @data v vs ls h ih =>
    cases hs with
    | cons hb hs =>
      obtain rfl := hb
      have hsplit : gathered (v :: vs) = (v ++ [10]) ++ gathered vs := rfl
      rw [hsplit, List.length_append, List.length_append, List.length_singleton] at hlen
      rw [List.cons_append, sseFrom_data (by omega), ih hs ?_, hsplit, List.append_assoc]
      rw [List.length_append, List.length_append, List.length_singleton]
      omega
  | other h ih =>
    cases hs with
    | cons hb hs =>
      rw [List.cons_append, sseFrom_other hb.1 hb.2]
      exact ih hs hlen

/-- Without data, and with none gathered, nothing happens. -/
theorem sseFrom_idle (h : ∀ v, .data v ∉ ls) (hs : List.Forall₂ Shows ls seen) :
    sseFrom err [] (seen ++ rest) = sseFrom err [] rest := by
  induction hs with
  | nil => rfl
  | @cons l b ls seen hb hs ih =>
    have hrest := ih (fun v hv => h v (List.mem_cons_of_mem _ hv))
    cases l with
    | data v => exact absurd List.mem_cons_self (h v)
    | other c => rw [List.cons_append, sseFrom_other hb.1 hb.2, hrest]
    | blank =>
      obtain rfl := hb
      rw [List.cons_append, sseFrom_blank, hrest]
      rfl

theorem sseFrom_gap (h : Gap ls) (hs : List.Forall₂ Shows ls seen) :
    sseFrom err data (seen ++ rest) =
      (dispatched data ++ (sseFrom err [] rest).1, (sseFrom err [] rest).2) := by
  obtain ⟨hblank, hnone⟩ := h
  induction hs with
  | nil => cases hblank
  | @cons l b ls seen hb hs ih =>
    have hnone' : ∀ v, .data v ∉ ls := fun v hv => hnone v (List.mem_cons_of_mem _ hv)
    cases l with
    | data v => exact absurd List.mem_cons_self (hnone v)
    | other c =>
      rw [List.cons_append, sseFrom_other hb.1 hb.2]
      exact ih ((List.mem_cons.mp hblank).resolve_left nofun) hnone'
    | blank =>
      obtain rfl := hb
      rw [List.cons_append, sseFrom_blank, sseFrom_idle hnone' hs]

end

theorem shows_append {xs ys : List Line} {seen : List Bytes}
    (h : List.Forall₂ Shows (xs ++ ys) seen) :
    ∃ s t, seen = s ++ t ∧ List.Forall₂ Shows xs s ∧ List.Forall₂ Shows ys t := by
  have htake := List.forall₂_take xs.length h
  have hdrop := List.forall₂_drop xs.length h
  rw [List.take_left] at htake
  rw [List.drop_left] at hdrop
  exact ⟨_, _, (List.take_append_drop xs.length seen).symm, htake, hdrop⟩

/-- The lines of a list of payloads amount to those payloads. -/
theorem sseFrom_encodes {ps : List (List Bytes)} {ls : List Line} {seen : List Bytes}
    (h : Encodes ps ls) (hs : List.Forall₂ Shows ls seen)
    (hlen : ∀ p ∈ ps, (joined p).length < 1000000) : sseFrom none [] seen = (ps.map joined, none) := by
  have hfits : ∀ {p : List Bytes}, p ≠ [] → (joined p).length < 1000000 →
      ([] : Bytes).length + (gathered p).length ≤ 1048576 := by
    intro p hne hp
    rw [gathered_eq hne, List.length_append, List.length_singleton, List.length_nil]
    omega
  induction h generalizing seen with
  | nil h =>
    rw [← List.append_nil seen, sseFrom_idle h hs]
    rfl
  | @last p ls hne h =>
    rw [← List.append_nil seen, sseFrom_filled h hs (hfits hne (hlen p (by simp))), List.nil_append]
    simp [sseFrom, dispatched_gathered hne]
  | @cons p ps ls gap rest hne h hgap _ ih =>
    obtain ⟨s, t, rfl, hls, ht⟩ := shows_append hs
    obtain ⟨t, u, rfl, hgaps, hu⟩ := shows_append ht
    rw [sseFrom_filled h hls (hfits hne (hlen p (by simp))), sseFrom_gap hgap hgaps, List.nil_append,
      dispatched_gathered hne, ih hu (fun q hq => hlen q (List.mem_cons_of_mem _ hq))]
    rfl

section
variable (broken : Bool) {line cur : Bytes}

theorem scanFrom_line (rest : Bytes) (hline : 10 ∉ line) (hlen : cur.length + line.length ≤ maxLine) :
    scanFrom broken cur (line ++ 10 :: rest) =
      (dropCR (cur.reverse ++ line) :: (scanFrom broken [] rest).1, (scanFrom broken [] rest).2) := by
  induction line generalizing cur with
  | nil => simp [scanFrom]
  | cons b line ih =>
    rw [List.mem_cons, not_or] at hline
    rw [List.length_cons] at hlen
    rw [List.cons_append, scanFrom, if_neg (Ne.symm hline.1), if_neg (by omega),
      ih hline.2 (by rw [List.length_cons]; omega)]
    simp

/-- What is left at the end is a line too. -/
theorem scanFrom_rest (hline : 10 ∉ line) (hlen : cur.length + line.length ≤ maxLine)
    (hne : cur.reverse ++ line ≠ []) :
    scanFrom broken cur line = ([dropCR (cur.reverse ++ line)], if broken then some .read else none) := by
  induction line generalizing cur with
  | nil =>
    have hcur : cur ≠ [] := by simpa using hne
    simp [scanFrom, hcur]
  | cons b line ih =>
    rw [List.mem_cons, not_or] at hline
    rw [List.length_cons] at hlen
    rw [scanFrom, if_neg (Ne.symm hline.1), if_neg (by omega),
      ih hline.2 (by rw [List.length_cons]; omega) (by simp)]
    simp

end

theorem dropCR_append (line : Bytes) : dropCR (line ++ [13]) = line := by
  simp [dropCR]

theorem dropCR_begins (line : Bytes) : dropCR line <+: line := by
  unfold dropCR
  split
  · exact List.dropLast_prefix line
  · exact List.prefix_refl line

section
variable {l : Line}

theorem Line.Valid.no_feed (h : l.Valid) : 10 ∉ l.text := by
  cases l with
  | data v =>
    have hdata : (10 : UInt8) ∉ ascii "data: " := by decide
    simp [Line.text, hdata, h.1]
  | other c => exact h.1
  | blank => nofun

theorem Line.Valid.length_lt (h : l.Valid) : l.text.length < 1000006 := by
  cases l with
  | data v =>
    have hdata : (ascii "data: ").length = 6 := by decide
    have hlen := h.2.2
    rw [Line.text, List.length_append, hdata]
    omega
  | other c =>
    have hlen := h.2.2.2
    rw [Line.text]
    omega
  | blank => decide

/-- A line reads as what it is, whole or without a carriage return at its end. -/
theorem Line.Valid.shows (h : l.Valid) : Shows l l.text ∧ Shows l (dropCR l.text) := by
  cases l with
  | data v =>
    refine ⟨rfl, ?_⟩
    have hlast : (ascii "data: " ++ v).getLast? ≠ some 13 := by
      rw [List.getLast?_append]
      cases hv : v.getLast? with
      | none => decide
      | some b =>
        rw [Option.some_or, ← hv]
        exact h.2.1
    exact if_neg hlast
  | other c =>
    have hstart : ∀ {b : Bytes}, b <+: c → (ascii "data:").isPrefixOf b = false := by
      intro b hb
      by_contra hp
      have hp : ascii "data:" <+: b := List.isPrefixOf_iff_prefix.mp (by simpa using hp)
      have hc := List.isPrefixOf_iff_prefix.mpr (hp.trans hb)
      rw [h.2.2.1] at hc
      cases hc
    refine ⟨⟨?_, h.2.2.1⟩, h.2.1, hstart (dropCR_begins c)⟩
    rintro rfl
    exact h.2.1 rfl
  | blank => exact ⟨rfl, rfl⟩

end

/-- The scanner finds the lines that were written. -/
theorem scanFrom_render {ls : List (Line × Ending)} (h : ∀ l ∈ ls, l.1.Valid) :
    ∃ seen, List.Forall₂ Shows (ls.map Prod.fst) seen ∧ ∀ broken tail,
      scanFrom broken [] (render ls ++ tail) =
        (seen ++ (scanFrom broken [] tail).1, (scanFrom broken [] tail).2) := by
  induction ls with
  | nil => exact ⟨[], .nil, fun _ _ => rfl⟩
  | cons l ls ih =>
    obtain ⟨l, ending⟩ := l
    obtain ⟨seen, hseen, hscan⟩ := ih (fun k hk => h k (List.mem_cons_of_mem _ hk))
    have hl : l.Valid := h (l, ending) List.mem_cons_self
    have hlen := hl.length_lt
    have hmax : maxLine = 1048575 := rfl
    have hrender : ∀ tail, render ((l, ending) :: ls) ++ tail =
        l.text ++ (ending.bytes ++ (render ls ++ tail)) := by
      intro tail
      simp [render]
    cases ending with
    | lf =>
      refine ⟨dropCR l.text :: seen, .cons hl.shows.2 hseen, fun broken tail => ?_⟩
      rw [hrender]
      refine (scanFrom_line broken (render ls ++ tail) hl.no_feed ?_).trans (by rw [hscan]; rfl)
      rw [List.length_nil]
      omega
    | crlf =>
      refine ⟨l.text :: seen, .cons hl.shows.1 hseen, fun broken tail => ?_⟩
      have hfeed : 10 ∉ l.text ++ [13] := by simp [hl.no_feed]
      have hsplit : l.text ++ (Ending.crlf.bytes ++ (render ls ++ tail)) =
          (l.text ++ [13]) ++ 10 :: (render ls ++ tail) := by
        simp [Ending.bytes]
      rw [hrender, hsplit, scanFrom_line broken _ hfeed
        (by rw [List.length_nil, List.length_append, List.length_singleton]; omega),
        hscan, List.reverse_nil, List.nil_append, dropCR_append]
      rfl

/-- The text of a stream, whose last line may have no ending. -/
def streamText (ls : List (Line × Ending)) (last : Option Line) : Bytes :=
  render ls ++ (last.map Line.text).getD []

theorem readSSE_encodes {ps : List (List Bytes)} {ls : List (Line × Ending)} {last : Option Line}
    (h : Encodes ps (ls.map Prod.fst ++ last.toList)) (hvalid : ∀ l ∈ ls.map Prod.fst ++ last.toList, l.Valid)
    (hlast : last ≠ some .blank) (hlen : ∀ p ∈ ps, (joined p).length < 1000000) :
    readSSE ⟨streamText ls last, false⟩ = (ps.map joined, none) := by
  have hlines : ∀ l ∈ ls, l.1.Valid :=
    fun l hl => hvalid l.1 (List.mem_append_left _ (List.mem_map_of_mem hl))
  obtain ⟨seen, hseen, hscan⟩ := scanFrom_render hlines
  have htail : ∃ t, List.Forall₂ Shows last.toList t ∧
      scanFrom false [] ((last.map Line.text).getD []) = (t, none) := by
    cases last with
    | none => exact ⟨[], .nil, rfl⟩
    | some l =>
      have hl : l.Valid := hvalid l (List.mem_append_right _ (by simp))
      have hlen := hl.length_lt
      have hne : l.text ≠ [] := by
        intro hnil
        have hshows := hl.shows.1
        cases l with
        | data v => cases hshows.symm.trans hnil
        | other c => exact hshows.1 hnil
        | blank => exact hlast rfl
      refine ⟨[dropCR l.text], .cons hl.shows.2 .nil, ?_⟩
      have hshort : ([] : Bytes).length + l.text.length ≤ maxLine := by
        rw [List.length_nil]
        unfold maxLine
        omega
      exact scanFrom_rest false hl.no_feed hshort hne
  obtain ⟨t, ht, hrest⟩ := htail
  have hall : List.Forall₂ Shows (ls.map Prod.fst ++ last.toList) (seen ++ t) :=
    List.rel_append hseen ht
  unfold readSSE scanLines streamText
  rw [hscan, hrest]
  exact sseFrom_encodes h hall hlen

/-- An event with a payload of one line, as the gateway writes it. -/
def eventOf (p : Bytes) : Bytes := ascii "data: " ++ p ++ ascii "\n\n"

/-- What was written event by event is read event by event. -/
theorem readSSE_events (ps : List Bytes) (broken : Bool) (h : ∀ p ∈ ps, (Line.data p).Valid) :
    readSSE ⟨ps.flatMap eventOf, broken⟩ = (ps, if broken then some .read else none) := by
  have hscan : scanFrom broken [] (ps.flatMap eventOf) =
      (ps.flatMap (fun p => [ascii "data: " ++ p, []]), if broken then some .read else none) := by
    induction ps with
    | nil => rfl
    | cons p ps ih =>
      have hp := h p List.mem_cons_self
      have hlen := hp.length_lt
      have hend : ascii "\n\n" = [10, 10] := by decide
      have hbytes : (p :: ps).flatMap eventOf =
          (Line.data p).text ++ 10 :: ([] ++ 10 :: ps.flatMap eventOf) := by
        simp [eventOf, hend, Line.text]
      rw [hbytes, scanFrom_line broken _ hp.no_feed (by rw [List.length_nil]; unfold maxLine; omega),
        scanFrom_line broken _ List.not_mem_nil (by decide),
        ih (fun q hq => h q (List.mem_cons_of_mem _ hq)), List.reverse_nil, List.nil_append, hp.shows.2]
      rfl
  have hread : ∀ err, sseFrom err [] (ps.flatMap (fun p => [ascii "data: " ++ p, []])) = (ps, err) := by
    intro err
    clear hscan
    induction ps with
    | nil => cases err <;> rfl
    | cons p ps ih =>
      have hlen := (h p List.mem_cons_self).2.2
      have hlines : (p :: ps).flatMap (fun p => [ascii "data: " ++ p, []]) =
          (ascii "data: " ++ p) :: [] :: ps.flatMap (fun p => [ascii "data: " ++ p, []]) := rfl
      rw [hlines, sseFrom_data (by rw [List.length_nil]; omega), sseFrom_blank,
        ih (fun q hq => h q (List.mem_cons_of_mem _ hq))]
      simp [dispatched]
  unfold readSSE scanLines
  rw [hscan]
  exact hread _

/-- The values that have been written, one to a frame. -/
theorem valid_marshal {j : Json} (hover : Json.Over (fun _ => True) j)
    (hlen : (GoJson.marshal j).length < 1000000) : (Line.data (GoJson.marshal j)).Valid := by
  have hprintable := GoJson.marshal_printable hover
  refine ⟨fun hmem => ?_, fun hlast => ?_, hlen⟩
  · exact absurd (hprintable 10 hmem) (by decide)
  · exact absurd (hprintable 13 (List.mem_of_getLast? hlast)) (by decide)

theorem readSSE_frames {js : List Json} (broken : Bool)
    (h : ∀ j ∈ js, Json.Over (fun _ => True) j ∧ (GoJson.marshal j).length < 1000000) :
    readSSE ⟨js.flatMap sseFrame, broken⟩ =
      (js.map GoJson.marshal, if broken then some .read else none) := by
  have hbytes : js.flatMap sseFrame = (js.map GoJson.marshal).flatMap eventOf := by
    rw [List.flatMap_map]
    rfl
  rw [hbytes]
  refine readSSE_events _ broken (fun p hp => ?_)
  obtain ⟨j, hj, rfl⟩ := List.mem_map.mp hp
  exact valid_marshal (h j hj).1 (h j hj).2

/-- The frames that have been written so far. -/
def Framed (t : Translation) : Prop :=
  ∃ js : List Json, t.out = js.flatMap sseFrame ∧ ∀ j ∈ js, Json.Over (fun _ => True) j

theorem Framed.message {limit : Nat} {t t' : Translation} {m : StreamMessage} (h : Framed t)
    (hm : translateMessage limit t m = some t') : Framed t' := by
  unfold translateMessage at hm
  split at hm
  · cases hm
  · rename_i e _
    split at hm
    · split at hm
      · cases hm
      · exact Option.some.inj hm ▸ h
    · split at hm
      · split at hm
        · exact Option.some.inj hm ▸ h
        · dsimp only at hm
          split at hm
          · cases hm
          · obtain ⟨js, hout, hover⟩ := h
            obtain rfl := Option.some.inj hm
            refine ⟨js ++ [GoJson.map [("delta", GoJson.map [("text", .str e.deltaText)])]], ?_, ?_⟩
            · simp [hout]
            · intro j hj
              rcases List.mem_append.mp hj with hj | hj
              · exact hover j hj
              · rw [List.mem_singleton.mp hj]
                have htext : Json.Over (fun _ => True) (GoJson.map [("text", .str e.deltaText)]) :=
                  GoJson.over_map (by simp [Json.OverField, Json.Over, Json.spelled_any])
                exact GoJson.over_map (by simp [Json.OverField, Json.spelled_any, htext])
      · split at hm
        · exact Option.some.inj hm ▸ h
        · split at hm
          · exact Option.some.inj hm ▸ h
          · exact Option.some.inj hm ▸ h

theorem Framed.messages {limit : Nat} {t : Translation} (ms : List StreamMessage) (h : Framed t) :
    Framed (translateMessages limit t ms).1 := by
  induction ms generalizing t with
  | nil => exact h
  | cons m ms ih =>
    unfold translateMessages
    split
    · exact h
    · rename_i t' hm
      exact ih (h.message hm)

theorem over_usage {fs : List (String × Json)} {a : Option Json} {u : Json}
    (h : GoJson.members false [GoJson.field "usage" id (fun _ v => v) GoJson.raw] a fs = some (some u))
    (hfs : Json.OverFields (fun _ => True) fs) (ha : ∀ v, a = some v → Json.Over (fun _ => True) v) :
    Json.Over (fun _ => True) u := by
  induction fs generalizing a with
  | nil => exact ha u (Option.some.inj h)
  | cons f fs ih =>
    obtain ⟨key, v⟩ := f
    unfold GoJson.members at h
    split at h
    · rename_i g hg
      have hfield : g = GoJson.field "usage" id (fun _ v => v) GoJson.raw := by
        unfold GoJson.findField at hg
        split at hg
        · rename_i hfound
          obtain rfl := Option.some.inj hg
          exact List.mem_singleton.mp (List.mem_of_find?_eq_some hfound)
        · exact List.mem_singleton.mp (List.mem_of_find?_eq_some hg)
      subst hfield
      refine ih h hfs.2 (fun w hw => ?_)
      obtain rfl := Option.some.inj hw
      exact hfs.1.2
    · exact ih h hfs.2 ha

theorem over_final (t : Translation) : Json.Over (fun _ => True) t.final := by
  have hstop : Json.OverField (fun _ => True) ("stopReason", .str t.stop) :=
    ⟨Json.spelled_any _, Json.spelled_any _⟩
  unfold Translation.final
  split
  · rename_i u hu
    have husage : Json.Over (fun _ => True) u := by
      obtain ⟨j, hj, hread⟩ := Option.bind_eq_some_iff.mp hu
      have hover := (GoJson.over_of_scan hj).1
      cases j with
      | obj fs => exact over_usage hread hover nofun
      | null => cases hread
      | bool b => cases hread
      | num lit => cases hread
      | str s => cases hread
      | arr xs => cases hread
    have hmember : Json.OverField (fun _ => True) ("usage", u) := ⟨Json.spelled_any _, husage⟩
    exact GoJson.over_map (by simp [hstop, hmember])
  · exact GoJson.over_map (by simp [hstop])

theorem framed_translated (lib : Lib) (body : Body) (limit : Nat) :
    ∃ js : List Json, (translateBedrockStream lib body limit).bytes = js.flatMap sseFrame ∧
      ∀ j ∈ js, Json.Over (fun _ => True) j := by
  unfold translateBedrockStream
  cases lib.eventStream limit body with
  | mk ms clean =>
    have hframed : Framed (translateMessages limit {} ms).1 := Framed.messages ms ⟨[], rfl, by simp⟩
    obtain ⟨js, hout, hover⟩ := hframed
    dsimp only
    split
    · rename_i t ht
      rw [ht] at hout
      exact ⟨js, hout, hover⟩
    · rename_i t ht
      rw [ht] at hout
      split
      · exact ⟨js, hout, hover⟩
      · split
        · exact ⟨js, hout, hover⟩
        · refine ⟨js ++ [t.final], ?_, ?_⟩
          · have hout : t.out = js.flatMap sseFrame := hout
            simp [hout]
          · intro j hj
            rcases List.mem_append.mp hj with hj | hj
            · exact hover j hj
            · rw [List.mem_singleton.mp hj]
              exact over_final t

/-- The reader calls back exactly once for each payload, in order, until a call fails; and so it
does for what the gateway writes and for what it translates. -/
theorem sse_round_trips {σ ε : Type} (fn : σ → Bytes → σ × Option ε) (s : σ) :
    (∀ (ps : List (List Bytes)) (ls : List (Line × Ending)) (last : Option Line),
      Encodes ps (ls.map Prod.fst ++ last.toList) →
      (∀ l ∈ ls.map Prod.fst ++ last.toList, l.Valid) → last ≠ some .blank →
      (∀ p ∈ ps, (joined p).length < 1000000) →
      readSSEInto fn s ⟨streamText ls last, false⟩ = deliver fn s none (ps.map joined)) ∧
    (∀ js : List Json,
      (∀ j ∈ js, Json.Over (fun _ => True) j ∧ (GoJson.marshal j).length < 1000000) →
      readSSEInto fn s ⟨js.flatMap sseFrame, false⟩ = deliver fn s none (js.map GoJson.marshal)) ∧
    ∀ (lib : Lib) (body : Body) (limit : Nat), ∃ js : List Json,
      (translateBedrockStream lib body limit).bytes = js.flatMap sseFrame ∧
      ((∀ j ∈ js, (GoJson.marshal j).length < 1000000) →
        readSSEInto fn s (translateBedrockStream lib body limit) =
          deliver fn s (if (translateBedrockStream lib body limit).broken then some .read else none)
            (js.map GoJson.marshal)) := by
  refine ⟨fun ps ls last h hvalid hlast hlen => ?_, fun js h => ?_, fun lib body limit => ?_⟩
  · rw [readSSEInto_eq, readSSE_encodes h hvalid hlast hlen]
  · rw [readSSEInto_eq, readSSE_frames false h]
    rfl
  · obtain ⟨js, hbytes, hover⟩ := framed_translated lib body limit
    refine ⟨js, hbytes, fun hlen => ?_⟩
    have hread := readSSE_frames (translateBedrockStream lib body limit).broken
      (fun j hj => ⟨hover j hj, hlen j hj⟩)
    rw [← hbytes] at hread
    rw [readSSEInto_eq, hread]

/-- A comment, a payload that ends in an empty line, and one that ends where the input does. -/
def mixedLines : List (Line × Ending) :=
  [(.other (ascii ": ping"), .crlf), (.data (ascii "a"), .lf), (.data [], .crlf), (.blank, .lf),
    (.blank, .crlf)]

theorem mixed_endings_read_back :
    readSSEInto (fun (calls : List Bytes) p => (calls ++ [p], (none : Option Unit))) []
        ⟨ascii ": ping\r\ndata: a\ndata: \r\n\n\r\ndata: b", false⟩ =
      ([ascii "a\n", ascii "b"], none) := by
  have hfirst : Filled [ascii "a", []] [.other (ascii ": ping"), .data (ascii "a"), .data []] :=
    .other (.data (.data .nil))
  have hgap : Gap [.blank, .blank] := ⟨by simp, by simp⟩
  have hlast : Encodes [[ascii "b"]] [.data (ascii "b")] := .last (by simp) (.data .nil)
  have hencodes : Encodes [[ascii "a", []], [ascii "b"]]
      (mixedLines.map Prod.fst ++ (some (Line.data (ascii "b"))).toList) :=
    .cons (by simp) hfirst hgap hlast
  have hvalid : ∀ l ∈ mixedLines.map Prod.fst ++ (some (Line.data (ascii "b"))).toList, l.Valid := by
    decide
  have hread := (sse_round_trips (fun (calls : List Bytes) p => (calls ++ [p], (none : Option Unit)))
    []).1 _ mixedLines _ hencodes hvalid nofun (by decide)
  have htext : streamText mixedLines (some (.data (ascii "b"))) =
      ascii ": ping\r\ndata: a\ndata: \r\n\n\r\ndata: b" := by decide
  rw [htext] at hread
  exact hread

end Switchboard.Proofs.Framing
