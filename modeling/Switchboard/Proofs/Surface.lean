import Switchboard.Proofs.NoReplay
import Switchboard.Text.Members

namespace Switchboard.Proofs.Surface
open Text Gateway
open GoJson (Exact)

def messageNames : List String := ["role", "content"]

/-- The member is not there, or says nothing. -/
def Unset (fs : List (String × Json)) (name : String) : Prop :=
  fs.lookup name = none ∨ fs.lookup name = some .null

/-- An element of `messages` is the message that was read from it, and nothing more. -/
structure HoldsMessage (j : Json) (m : Message) : Prop where
  exact : ∃ gs, j = .obj gs ∧ (gs.map Prod.fst).Perm messageNames ∧
    gs.lookup "role" = some (.str m.role) ∧ gs.lookup "content" = some (.str m.content)

/-- The chat has what the members say, and the defaults where they say nothing. -/
structure Holds (lib : Lib) (fs : List (String × Json)) (c : Chat) : Prop where
  model : fs.lookup "model" = some (.str c.model)
  messages : ∃ js, fs.lookup "messages" = some (.arr js) ∧ List.Forall₂ HoldsMessage js c.messages
  stream : fs.lookup "stream" = some (.bool c.stream) ∨ Unset fs "stream" ∧ c.stream = false
  maxTokens : (∃ lit, fs.lookup "max_tokens" = some (.num lit) ∧
      Json.intOf lit = some c.maxTokens) ∨ Unset fs "max_tokens" ∧ c.maxTokens = 1024
  temperature : (∃ lit t, fs.lookup "temperature" = some (.num lit) ∧
      lib.parseFloat lit = some t ∧ c.temperature = some t) ∨
    Unset fs "temperature" ∧ c.temperature = none

/-- Nothing in the body was ignored. -/
def Heeded (lib : Lib) (b : Bytes) (c : Chat) : Prop :=
  ∃ fs, GoJson.scan b = some (.obj fs) ∧ Exact supportedFields fs ∧ Holds lib fs c

/-- Names as they are documented, each once, and no `max_tokens` of zero. -/
structure Spelled (fs : List (String × Json)) : Prop where
  exact : Exact supportedFields fs
  messages : ∀ js, fs.lookup "messages" = some (.arr js) → ∀ gs, .obj gs ∈ js → Exact messageNames gs
  maxTokens : ∀ lit, fs.lookup "max_tokens" = some (.num lit) → Json.intOf lit ≠ some 0

/-- What is known of a body that was accepted, and of the chat before its default was set. -/
structure Read (lib : Lib) (b : Bytes) (c c' : Chat) : Prop where
  read : strictJSON {} (chatFields lib) b = some c
  model : c.model = "preferred"
  nonempty : 1 ≤ c.messages.length
  eq : c' = { c with maxTokens := if c.maxTokens = 0 then 1024 else c.maxTokens }
  messages : validMessages true c.messages = true

theorem read_of_parseChat {lib : Lib} {b : Bytes} {c : Chat} (h : parseChat lib b = .ok c) :
    ∃ c', Read lib b c' c := by
  unfold parseChat at h
  split at h
  · cases h
  · rename_i c' hread
    split at h
    · cases h
    · rename_i hmodel
      split at h
      · cases h
      · rename_i hcount
        extract_lets d at h
        have hd : d = { c' with maxTokens := if c'.maxTokens = 0 then 1024 else c'.maxTokens } := by
          unfold d
          split <;> rfl
        split at h
        · cases h
        · split at h
          · cases h
          · rename_i hvalid
            split at h
            · cases h
            · obtain rfl := Except.ok.inj h
              refine ⟨c', hread, by simpa using hmodel, by omega, hd, ?_⟩
              rw [hd] at hvalid
              simpa using hvalid

theorem supported_folded : ∀ a ∈ supportedFields, ∀ b ∈ supportedFields,
    GoJson.foldName a = GoJson.foldName b → a = b := by
  decide

theorem messageNames_folded : ∀ a ∈ messageNames, ∀ b ∈ messageNames,
    GoJson.foldName a = GoJson.foldName b → a = b := by
  decide

section
variable (lib : Lib)

theorem reads_model : GoJson.Reads (chatFields lib) "model" Chat.model GoJson.string :=
  .of (by simp [chatFields, GoJson.field]) (by simp +decide [chatFields, GoJson.slot_field])

theorem reads_messages : GoJson.Reads (chatFields lib) "messages" Chat.messages
    (GoJson.slice {} (GoJson.struct true messageFields)) :=
  .of (by simp [chatFields, GoJson.field]) (by simp +decide [chatFields, GoJson.slot_field])

theorem reads_stream : GoJson.Reads (chatFields lib) "stream" Chat.stream GoJson.bool :=
  .of (by simp [chatFields, GoJson.field]) (by simp +decide [chatFields, GoJson.slot_field])

theorem reads_maxTokens : GoJson.Reads (chatFields lib) "max_tokens" Chat.maxTokens GoJson.int64 :=
  .of (by simp [chatFields, GoJson.field]) (by simp +decide [chatFields, GoJson.slot_field])

theorem reads_temperature : GoJson.Reads (chatFields lib) "temperature" Chat.temperature
    (GoJson.pointer 0 (float64 lib)) :=
  .of (by simp [chatFields, GoJson.field]) (by simp +decide [chatFields, GoJson.slot_field])

end

theorem reads_role : GoJson.Reads messageFields "role" Message.role GoJson.string :=
  .of (by simp [messageFields, GoJson.field]) (by simp +decide [messageFields, GoJson.slot_field])

theorem reads_content : GoJson.Reads messageFields "content" Message.content GoJson.string :=
  .of (by simp [messageFields, GoJson.field]) (by simp +decide [messageFields, GoJson.slot_field])

theorem validMessages_said {first : Bool} {ms : List Message} (h : validMessages first ms = true) :
    ∀ m ∈ ms, m.role ≠ "" ∧ m.content ≠ "" := by
  induction ms generalizing first with
  | nil => exact fun _ hm => nomatch hm
  | cons m ms ih =>
    unfold validMessages at h
    split at h
    · cases h
    · rename_i hok
      refine List.forall_mem_cons.mpr ⟨⟨fun hrole => ?_, fun hcontent => ?_⟩, ih h⟩
      · simp [hrole] at hok
      · simp [hcontent] at hok

/-- A string that is not empty was written as one. -/
theorem taken_string {get : α → String} {a a' : α} {v : Option Json}
    (h : GoJson.Taken get GoJson.string a a' v) (hzero : get a = "") (hset : get a' ≠ "") :
    v = some (.str (get a')) := by
  cases v with
  | none => exact absurd (Eq.trans h hzero) hset
  | some j =>
    have hread : GoJson.string (get a) j = some (get a') := h
    cases j with
    | null => exact absurd ((Option.some.inj hread).symm.trans hzero) hset
    | str t => rw [← Option.some.inj hread]
    | bool b => cases hread
    | num lit => cases hread
    | arr xs => cases hread
    | obj fs => cases hread

theorem exact_of_perm {gs : List (String × Json)} (h : (gs.map Prod.fst).Perm messageNames) :
    Exact messageNames gs := by
  constructor
  · intro g hg
    exact h.mem_iff.mp (List.mem_map_of_mem hg)
  · exact h.nodup_iff.mpr (by decide)

theorem exact_of_holds {js : List Json} {ms : List Message} (h : List.Forall₂ HoldsMessage js ms) :
    ∀ gs, .obj gs ∈ js → Exact messageNames gs := by
  induction h with
  | nil => exact fun gs hgs => nomatch hgs
  | cons hj _ ih =>
    intro gs hgs
    rcases List.mem_cons.mp hgs with rfl | hgs
    · obtain ⟨gs', he, hperm, -⟩ := hj.exact
      obtain rfl := Json.obj.inj he
      exact exact_of_perm hperm
    · exact ih gs hgs

theorem mem_names_of_lookup {gs : List (String × Json)} {name : String} {v : Json}
    (h : gs.lookup name = some v) : name ∈ gs.map Prod.fst := by
  obtain ⟨l₁, l₂, rfl, -⟩ := List.lookup_eq_some_iff.mp h
  simp

/-- A message whose names are as they should be is read as it stands. -/
theorem holdsMessage_of_struct {j : Json} {m : Message}
    (h : GoJson.struct true messageFields {} j = some m) (hrole : m.role ≠ "")
    (hcontent : m.content ≠ "") (hexact : ∀ gs, j = .obj gs → Exact messageNames gs) :
    HoldsMessage j m := by
  cases j with
  | null =>
    obtain rfl := Option.some.inj h
    exact absurd rfl hrole
  | obj gs =>
    have hgs := hexact gs rfl
    have hmembers := GoJson.members_of_strict h
    have hfolded := hgs.folded messageNames_folded
    have hrole' := taken_string (GoJson.members_taken reads_role hfolded hmembers) rfl hrole
    have hcontent' := taken_string (GoJson.members_taken reads_content hfolded hmembers) rfl hcontent
    rw [hgs.member?_eq messageNames_folded (by decide)] at hrole' hcontent'
    refine ⟨gs, rfl, ?_, hrole', hcontent'⟩
    apply (List.perm_ext_iff_of_nodup hgs.once (by decide)).mpr
    intro name
    constructor
    · intro hname
      obtain ⟨g, hg, rfl⟩ := List.mem_map.mp hname
      exact hgs.named g hg
    · intro hname
      rcases List.mem_pair.mp hname with rfl | rfl
      · exact mem_names_of_lookup hrole'
      · exact mem_names_of_lookup hcontent'
  | bool b => cases h
  | num lit => cases h
  | str s => cases h
  | arr xs => cases h

theorem holdsMessages_of_elems {js : List Json} {ms : List Message}
    (h : List.Forall₂ (fun j m => GoJson.struct true messageFields {} j = some m) js ms)
    (hsaid : ∀ m ∈ ms, m.role ≠ "" ∧ m.content ≠ "")
    (hexact : ∀ gs, .obj gs ∈ js → Exact messageNames gs) : List.Forall₂ HoldsMessage js ms := by
  induction h with
  | nil => exact .nil
  | @cons j m js ms hj _ ih =>
    obtain ⟨⟨hrole, hcontent⟩, hrest⟩ := List.forall_mem_cons.mp hsaid
    apply List.Forall₂.cons
    · apply holdsMessage_of_struct hj hrole hcontent
      intro gs he
      subst he
      exact hexact gs List.mem_cons_self
    · exact ih hrest (fun gs hgs => hexact gs (List.mem_cons_of_mem _ hgs))

section
variable {lib : Lib} {fs : List (String × Json)} {c : Chat}

/-- What the member of a field did to its variable, with names as they should be. -/
theorem taken_lookup (h : GoJson.members true (chatFields lib) {} fs = some c)
    (hfs : Exact supportedFields fs) {name : String} (hname : name ∈ supportedFields)
    {get : Chat → β} {d : GoJson.Decoder β} (hr : GoJson.Reads (chatFields lib) name get d) :
    GoJson.Taken get d {} c (fs.lookup name) := by
  have htaken := GoJson.members_taken hr (hfs.folded supported_folded) (GoJson.members_of_strict h)
  rw [hfs.member?_eq supported_folded hname] at htaken
  exact htaken

theorem stream_holds (h : GoJson.Taken Chat.stream GoJson.bool {} c (fs.lookup "stream")) :
    fs.lookup "stream" = some (.bool c.stream) ∨ Unset fs "stream" ∧ c.stream = false := by
  cases hv : fs.lookup "stream" with
  | none =>
    rw [hv] at h
    exact .inr ⟨.inl hv, h⟩
  | some j =>
    rw [hv] at h
    have hread : GoJson.bool false j = some c.stream := h
    cases j with
    | null => exact .inr ⟨.inr hv, (Option.some.inj hread).symm⟩
    | bool b => exact .inl (by rw [← Option.some.inj hread])
    | str t => cases hread
    | num lit => cases hread
    | arr xs => cases hread
    | obj gs => cases hread

theorem maxTokens_holds
    (h : GoJson.Taken Chat.maxTokens GoJson.int64 {} c (fs.lookup "max_tokens"))
    (hzero : ∀ lit, fs.lookup "max_tokens" = some (.num lit) → Json.intOf lit ≠ some 0) :
    (∃ lit, fs.lookup "max_tokens" = some (.num lit) ∧
        Json.intOf lit = some (if c.maxTokens = 0 then 1024 else c.maxTokens)) ∨
      Unset fs "max_tokens" ∧ (if c.maxTokens = 0 then 1024 else c.maxTokens) = 1024 := by
  cases hv : fs.lookup "max_tokens" with
  | none =>
    rw [hv] at h
    have hsame : c.maxTokens = 0 := h
    exact .inr ⟨.inl hv, if_pos hsame⟩
  | some j =>
    rw [hv] at h
    have hread : GoJson.int64 0 j = some c.maxTokens := h
    cases j with
    | null => exact .inr ⟨.inr hv, if_pos (Option.some.inj hread).symm⟩
    | num lit =>
      obtain ⟨hint, -⟩ := Option.filter_eq_some_iff.mp hread
      have hne : c.maxTokens ≠ 0 := fun he => hzero lit hv (he ▸ hint)
      exact .inl ⟨lit, rfl, by rw [if_neg hne, hint]⟩
    | str t => cases hread
    | bool b => cases hread
    | arr xs => cases hread
    | obj gs => cases hread

theorem temperature_holds (h : GoJson.Taken Chat.temperature (GoJson.pointer 0 (float64 lib)) {} c
      (fs.lookup "temperature")) :
    (∃ lit t, fs.lookup "temperature" = some (.num lit) ∧ lib.parseFloat lit = some t ∧
        c.temperature = some t) ∨ Unset fs "temperature" ∧ c.temperature = none := by
  cases hv : fs.lookup "temperature" with
  | none =>
    rw [hv] at h
    exact .inr ⟨.inl hv, h⟩
  | some j =>
    rw [hv] at h
    have hread : GoJson.pointer 0 (float64 lib) none j = some c.temperature := h
    cases j with
    | null => exact .inr ⟨.inr hv, (Option.some.inj hread).symm⟩
    | num lit =>
      obtain ⟨t, ht, hc⟩ := Option.map_eq_some_iff.mp hread
      exact .inl ⟨lit, t, rfl, ht, hc.symm⟩
    | str t => cases hread
    | bool b => cases hread
    | arr xs => cases hread
    | obj gs => cases hread

theorem messages_holds
    (h : GoJson.Taken Chat.messages (GoJson.slice {} (GoJson.struct true messageFields)) {} c
      (fs.lookup "messages")) (hcount : 1 ≤ c.messages.length)
    (hsaid : ∀ m ∈ c.messages, m.role ≠ "" ∧ m.content ≠ "")
    (hexact : ∀ js, fs.lookup "messages" = some (.arr js) → ∀ gs, .obj gs ∈ js → Exact messageNames gs) :
    ∃ js, fs.lookup "messages" = some (.arr js) ∧ List.Forall₂ HoldsMessage js c.messages := by
  have hne : c.messages ≠ [] := List.ne_nil_of_length_pos hcount
  cases hv : fs.lookup "messages" with
  | none =>
    rw [hv] at h
    exact absurd h hne
  | some j =>
    rw [hv] at h
    have hread : GoJson.slice {} (GoJson.struct true messageFields) [] j = some c.messages := h
    cases j with
    | null => exact absurd (Option.some.inj hread).symm hne
    | arr js => exact ⟨js, rfl, holdsMessages_of_elems (GoJson.slice_elems hread) hsaid (hexact js hv)⟩
    | str t => cases hread
    | bool b => cases hread
    | num lit => cases hread
    | obj gs => cases hread

end

/-- A body that is accepted is one object. -/
theorem members_of_read {lib : Lib} {b : Bytes} {c c' : Chat} (h : Read lib b c c') :
    ∃ fs, GoJson.scan b = some (.obj fs) ∧ GoJson.members true (chatFields lib) {} fs = some c := by
  obtain ⟨j, hscan, hj⟩ := Option.bind_eq_some_iff.mp h.read
  cases j with
  | null =>
    obtain rfl := Option.some.inj hj
    exact absurd h.model (by decide)
  | obj fs => exact ⟨fs, hscan, hj⟩
  | bool b => cases hj
  | num lit => cases hj
  | str s => cases hj
  | arr xs => cases hj

theorem holds_of_spelled {lib : Lib} {b : Bytes} {c c' : Chat} (h : Read lib b c c')
    {fs : List (String × Json)} (hc : GoJson.members true (chatFields lib) {} fs = some c)
    (hfs : Spelled fs) : Holds lib fs c' := by
  have hmodel := taken_lookup hc hfs.exact (by decide) (reads_model lib)
  have hmessages := taken_lookup hc hfs.exact (by decide) (reads_messages lib)
  have hstream := taken_lookup hc hfs.exact (by decide) (reads_stream lib)
  have hmaxTokens := taken_lookup hc hfs.exact (by decide) (reads_maxTokens lib)
  have htemperature := taken_lookup hc hfs.exact (by decide) (reads_temperature lib)
  have hpreferred : c.model ≠ "" := by
    rw [h.model]
    decide
  rw [h.eq]
  constructor
  · exact taken_string hmodel rfl hpreferred
  · exact messages_holds hmessages h.nonempty (validMessages_said h.messages) hfs.messages
  · exact stream_holds hstream
  · exact maxTokens_holds hmaxTokens hfs.maxTokens
  · exact temperature_holds htemperature

theorem spelled_of_holds {lib : Lib} {fs : List (String × Json)} {c : Chat}
    (hexact : Exact supportedFields fs) (h : Holds lib fs c) (hpos : c.maxTokens ≠ 0) :
    Spelled fs := by
  refine ⟨hexact, fun js hjs gs hgs => ?_, fun lit hlit hzero => ?_⟩
  · obtain ⟨js', hjs', hall⟩ := h.messages
    obtain rfl : js = js' := by simpa [hjs] using hjs'
    exact exact_of_holds hall gs hgs
  · rcases h.maxTokens with ⟨lit', hlit', hint⟩ | ⟨hunset, -⟩
    · obtain rfl : lit = lit' := by simpa [hlit] using hlit'
      exact hpos (Option.some.inj (hint.symm.trans hzero))
    · rcases hunset with hnone | hnull
      · simp [hlit] at hnone
      · simp [hlit] at hnull

/-- Each name in a body that is accepted is a supported one up to case; nothing in the body
is ignored exactly when the names are spelled as they are documented, each occurs once, and
`max_tokens` is not zero. -/
theorem parsed_heeded_iff (lib : Lib) (b : Bytes) (c : Chat) (h : parseChat lib b = .ok c) :
    ∃ fs, GoJson.scan b = some (.obj fs) ∧
      (∀ f ∈ fs, ∃ name ∈ supportedFields, GoJson.foldName f.1 = GoJson.foldName name) ∧
      (Heeded lib b c ↔ Spelled fs) := by
  obtain ⟨c', hread⟩ := read_of_parseChat h
  obtain ⟨fs, hscan, hc⟩ := members_of_read hread
  refine ⟨fs, hscan, fun f hf => ?_, ?_⟩
  · obtain ⟨g, hg, hname⟩ := GoJson.members_matched hc f hf
    refine ⟨g.name, ?_, hname⟩
    have hmem : g.name ∈ (chatFields lib).map GoJson.Field.name := List.mem_map_of_mem hg
    exact hmem
  · constructor
    · intro hheeded
      obtain ⟨fs', hscan', hexact, hholds⟩ := hheeded
      obtain rfl : fs = fs' := by simpa [hscan] using hscan'
      apply spelled_of_holds hexact hholds
      rw [hread.eq]
      dsimp only
      split <;> omega
    · intro hspelled
      exact ⟨fs, hscan, hspelled.exact, holds_of_spelled hread hc hspelled⟩

def plainChat : Chat where
  model := "preferred"
  messages := [⟨"user", "hi"⟩]
  maxTokens := 1024

theorem plain_body_heeded :
    parseChat NoReplay.plainLib NoReplay.plainBody = .ok plainChat ∧
      ∃ fs, GoJson.scan NoReplay.plainBody = some (.obj fs) ∧
        (∀ f ∈ fs, ∃ name ∈ supportedFields, GoJson.foldName f.1 = GoJson.foldName name) ∧
        (Heeded NoReplay.plainLib NoReplay.plainBody plainChat ↔ Spelled fs) := by
  have hparse : parseChat NoReplay.plainLib NoReplay.plainBody = .ok plainChat := by decide +kernel
  exact ⟨hparse, parsed_heeded_iff _ _ _ hparse⟩

/-- A request for a short greeting, with more members. -/
def greeting (more : List (String × Json)) : Json :=
  .obj ([("model", .str "preferred"),
    ("messages", .arr [.obj [("role", .str "user"), ("content", .str "hi")]])] ++ more)

theorem scan_greeting {more : List (String × Json)} (h : ∀ f ∈ more, GoJson.Fits 2 f.2) :
    GoJson.scan (GoJson.marshal (greeting more)) = some (greeting more) := by
  have hmessage : GoJson.Fits 1 (.obj [("role", .str "user"), ("content", .str "hi")]) := by
    apply GoJson.Fits.obj
    simp [GoJson.Fits.str]
  have hmessages :
      GoJson.Fits 2 (.arr [.obj [("role", .str "user"), ("content", .str "hi")]]) := by
    apply GoJson.Fits.arr
    simpa using hmessage
  have hall : GoJson.Fits 3 (greeting more) := by
    apply GoJson.Fits.obj
    intro f hf
    rcases List.mem_append.mp hf with hf | hf
    · rcases List.mem_pair.mp hf with rfl | rfl
      · exact GoJson.Fits.str 2 _
      · exact hmessages
    · exact h f hf
  exact hall.scan (by decide)

/-- What is asked for in capitals, twice, or as no tokens at all. -/
def capital : List (String × Json) := [("MAX_TOKENS", Json.int 5)]

def twice : List (String × Json) := [("stream", .bool true), ("stream", .bool false)]

def noTokens : List (String × Json) := [("max_tokens", Json.int 0)]

/-- A name in capitals is taken for the documented one, of two members of one name the last
counts, and a `max_tokens` of zero asks for 1024. -/
theorem members_not_heeded :
    (parseChat NoReplay.plainLib (GoJson.marshal (greeting capital)) =
        .ok { plainChat with maxTokens := 5 } ∧
      ¬ Heeded NoReplay.plainLib (GoJson.marshal (greeting capital))
        { plainChat with maxTokens := 5 }) ∧
    (parseChat NoReplay.plainLib (GoJson.marshal (greeting twice)) = .ok plainChat ∧
      ¬ Heeded NoReplay.plainLib (GoJson.marshal (greeting twice)) plainChat) ∧
    (parseChat NoReplay.plainLib (GoJson.marshal (greeting noTokens)) = .ok plainChat ∧
      ¬ Heeded NoReplay.plainLib (GoJson.marshal (greeting noTokens)) plainChat) := by
  have hcapital : GoJson.scan (GoJson.marshal (greeting capital)) = some (greeting capital) :=
    scan_greeting (by simp [capital, GoJson.Fits.int])
  have htwice : GoJson.scan (GoJson.marshal (greeting twice)) = some (greeting twice) :=
    scan_greeting (by simp [twice, GoJson.Fits.bool])
  have hzero : GoJson.scan (GoJson.marshal (greeting noTokens)) = some (greeting noTokens) :=
    scan_greeting (by simp [noTokens, GoJson.Fits.int])
  refine ⟨⟨by decide +kernel, fun h => ?_⟩, ⟨by decide +kernel, fun h => ?_⟩,
    ⟨by decide +kernel, fun h => ?_⟩⟩
  · obtain ⟨fs, hfs, hexact, -⟩ := h
    obtain rfl := Json.obj.inj (Option.some.inj (hcapital.symm.trans hfs))
    exact absurd (hexact.named ("MAX_TOKENS", Json.int 5) (by simp [capital])) (by decide)
  · obtain ⟨fs, hfs, hexact, -⟩ := h
    obtain rfl := Json.obj.inj (Option.some.inj (htwice.symm.trans hfs))
    exact absurd hexact.once (by decide)
  · obtain ⟨fs, hfs, hexact, hholds⟩ := h
    obtain rfl := Json.obj.inj (Option.some.inj (hzero.symm.trans hfs))
    have hspelled := spelled_of_holds hexact hholds (by decide)
    exact hspelled.maxTokens _ rfl (by decide)

end Switchboard.Proofs.Surface
