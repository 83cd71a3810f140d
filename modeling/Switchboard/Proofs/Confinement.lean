import Switchboard.Proofs.Routing
import Switchboard.Proofs.Valid

namespace Switchboard.Proofs.Confinement
open Text Gateway
open Effect (Prog)

/-- Scheme and authority: everything before the first slash behind `://`. -/
def origin : List Char → List Char
  | [] => []
  | c :: cs =>
    if "://".toList.isPrefixOf (c :: cs) then "://".toList ++ (cs.drop 2).takeWhile (· ≠ '/')
    else c :: origin cs

/-- A URL with a scheme and a host is written as a scheme, `://` and something that does not
begin with a slash. -/
def Syntactic (parseURL : String → Option URL) : Prop :=
  ∀ s u, parseURL s = some u → u.scheme ≠ "" → u.host ≠ "" →
    ∃ scheme c rest, s.toList = scheme ++ "://".toList ++ c :: rest ∧ ':' ∉ scheme ∧ c ≠ '/'

theorem origin_scheme {scheme : List Char} (h : ':' ∉ scheme) (x : List Char) :
    origin (scheme ++ "://".toList ++ x) = scheme ++ "://".toList ++ x.takeWhile (· ≠ '/') := by
  induction scheme with
  | nil => rfl
  | cons c scheme ih =>
    have hc : ':' ≠ c := fun he => h (he ▸ List.mem_cons_self)
    have hskip : "://".toList.isPrefixOf (c :: (scheme ++ "://".toList ++ x)) = false := by
      have hne : (':' == c) = false := by simpa using hc
      show (':' == c && _) = false
      rw [hne, Bool.false_and]
    have htail := ih (fun hm => h (List.mem_cons_of_mem _ hm))
    rw [List.cons_append, List.cons_append, origin, hskip, htail]
    rfl

theorem takeWhile_stop {p : Char → Bool} (xs ys : List Char) (h : ∀ y, ys.head? = some y → p y = false) :
    (xs ++ ys).takeWhile p = xs.takeWhile p := by
  induction xs with
  | nil =>
    cases ys with
    | nil => rfl
    | cons y ys => simp [h y rfl]
  | cons x xs ih =>
    rw [List.cons_append, List.takeWhile_cons, List.takeWhile_cons, ih]

/-- The text without the slashes at its end. -/
def trimmed (cs : List Char) : List Char := (cs.reverse.dropWhile (· == '/')).reverse

theorem trimURL_toList (s : String) : (trimURL s).toList = trimmed s.toList := by
  simp [trimURL, Strings.trimRight, trimmed]

theorem trimmed_append {pre rest : List Char} {c : Char} (hc : c ≠ '/') :
    trimmed (pre ++ c :: rest) = pre ++ trimmed (c :: rest) := by
  have hne : (c :: rest).reverse.dropWhile (· == '/') ≠ [] := by
    intro hnil
    have hall := List.dropWhile_eq_nil_iff.mp hnil c (by simp)
    exact hc (by simpa using hall)
  have hempty : ((c :: rest).reverse.dropWhile (· == '/')).isEmpty = false := by
    simpa using hne
  rw [trimmed, List.reverse_append, List.dropWhile_append, hempty]
  simp [trimmed]

/-- Slashes at the end and a path behind do not matter for what comes before the first
slash. -/
theorem takeWhile_trimmed (x path : List Char) :
    (trimmed x ++ '/' :: path).takeWhile (· ≠ '/') = x.takeWhile (· ≠ '/') := by
  have hx : x = trimmed x ++ (x.reverse.takeWhile (· == '/')).reverse := by
    have hsplit := List.takeWhile_append_dropWhile (p := (· == '/')) (l := x.reverse)
    rw [trimmed, ← List.reverse_append, hsplit, List.reverse_reverse]
  have hslash : ∀ y, ((x.reverse.takeWhile (· == '/')).reverse).head? = some y →
      decide (y ≠ '/') = false := by
    intro y hy
    have hmem := List.mem_reverse.mp (List.mem_of_mem_head? hy)
    have hall := List.mem_takeWhile_imp hmem
    simpa using hall
  have hpath : ∀ y, ('/' :: path).head? = some y → decide (y ≠ '/') = false := by
    intro y hy
    cases hy
    rfl
  calc (trimmed x ++ '/' :: path).takeWhile (· ≠ '/')
      = (trimmed x).takeWhile (· ≠ '/') := takeWhile_stop _ _ hpath
    _ = (trimmed x ++ (x.reverse.takeWhile (· == '/')).reverse).takeWhile (· ≠ '/') :=
        (takeWhile_stop _ _ hslash).symm
    _ = x.takeWhile (· ≠ '/') := by rw [← hx]

/-- A path behind the configured URL leaves scheme and authority alone. -/
theorem origin_of_path {parseURL : String → Option URL} (hlib : Syntactic parseURL) {s path : String}
    {u : URL} {cs : List Char} (hs : parseURL s = some u) (hscheme : u.scheme ≠ "")
    (hhost : u.host ≠ "") (hpath : path.toList = '/' :: cs) :
    origin (trimURL s ++ path).toList = origin s.toList := by
  obtain ⟨scheme, c, rest, hurl, hcolon, hc⟩ := hlib s u hs hscheme hhost
  rw [String.toList_append, trimURL_toList, hurl, trimmed_append hc, hpath, List.append_assoc,
    origin_scheme hcolon, origin_scheme hcolon, takeWhile_trimmed]

theorem alphanumeric_identifier {c : Char} (h : alphanumeric c = true) : identifierChar c = true := by
  simp [identifierChar, h]

theorem identifier_chars {s : String} (h : identifier s = true) : ∀ c ∈ s.toList, identifierChar c = true := by
  unfold identifier at h
  split at h
  · cases h
  · rename_i c cs heq
    simp only [Bool.and_eq_true, List.all_eq_true] at h
    intro d hd
    rw [heq] at hd
    rcases List.mem_cons.mp hd with rfl | hd
    · exact alphanumeric_identifier h.1.1
    · exact h.2 d hd

/-- How one byte is escaped. -/
def escapeByte (b : UInt8) : List Char :=
  let c := Char.ofNat b.toNat
  if alphanumeric c || "-_.~$&+:=@".toList.contains c then [c]
  else ['%', upperHex (b.toNat / 16), upperHex (b.toNat % 16)]

theorem escapeByte_identifier {c : Char} (h : identifierChar c = true) :
    escapeByte (UInt8.ofNat c.toNat) = [c] := by
  have hall : ∀ n < 128, identifierChar (Char.ofNat n) = true →
      escapeByte (UInt8.ofNat n) = [Char.ofNat n] := by decide
  have hc := hall c.toNat (identifierChar_plain h).ascii
  rw [Char.ofNat_toNat] at hc
  exact hc h

/-- An identifier has nothing in it to be escaped. -/
theorem pathEscape_identifier {s : String} (h : ∀ c ∈ s.toList, identifierChar c = true) :
    pathEscape s = s := by
  have hascii : Ascii s.toList := fun c hc => (identifierChar_plain (h c hc)).ascii
  have hflat : ∀ cs : List Char, (∀ c ∈ cs, identifierChar c = true) →
      (cs.map (fun c => UInt8.ofNat c.toNat)).flatMap escapeByte = cs := by
    intro cs hcs
    induction cs with
    | nil => rfl
    | cons c cs ih =>
      rw [List.map_cons, List.flatMap_cons, escapeByte_identifier (hcs c List.mem_cons_self),
        ih (fun d hd => hcs d (List.mem_cons_of_mem _ hd))]
      rfl
  have hescape : pathEscape s = String.ofList ((utf8 s.toList).flatMap escapeByte) := rfl
  rw [hescape, utf8_ascii hascii, hflat s.toList h, String.ofList_toList]

/-- What an adapter writes into the path before and behind the model. One that names no
model there has its whole path in front. -/
def fixedParts (provider : String) (stream : Bool) : String × String :=
  if provider = "openai" then ("/v1/chat/completions", "")
  else if provider = "anthropic" then ("/v1/messages", "")
  else if provider = "gemini" then
    ("/v1beta/models/", if stream then ":streamGenerateContent?alt=sse" else ":generateContent")
  else ("/model/", if stream then "/converse-stream" else "/converse")

/-- The header that a provider is authenticated with, of those that have a key. -/
def credential (provider key : String) : Option (String × String) :=
  if provider = "openai" then some ("Authorization", "Bearer " ++ key)
  else if provider = "anthropic" then some ("x-api-key", key)
  else if provider = "gemini" then some ("x-goog-api-key", key)
  else none

/-- Headers that are the same for every key. -/
def plainHeaders : List (String × String) :=
  [("Content-Type", "application/json"), ("Accept", "text/event-stream"),
    ("anthropic-version", "2023-06-01")]

/-- A request that goes where the configuration of its provider says. -/
structure Confined (lib : Lib) (c : Chat) (r : Route) (pc : ProviderConfig) (u : Upstream) : Prop where
  url : ∃ model, u.url = trimURL pc.url ++ ((fixedParts r.provider c.stream).1 ++ model ++
      (fixedParts r.provider c.stream).2) ∧ (model = "" ∨ model = r.model) ∧
      (∀ x ∈ model.toList, identifierChar x = true) ∧
      (fixedParts r.provider c.stream).1.toList.head? = some '/'
  origin : origin u.url.toList = origin pc.url.toList
  headers : ∃ plain signed, u.headers = plain ++ signed ∧ (r.provider ≠ "bedrock" → signed = []) ∧
      ∀ h ∈ plain, h ∈ plainHeaders ∨ credential r.provider (lib.getenv pc.keyEnv) = some h

theorem adapterRequest_path {lib : Lib} {c : Chat} {r : Route} {path : String} {body : Json}
    (hmodel : identifier r.model = true) (h : adapterRequest lib c r = some (path, body)) :
    ∃ model, path = (fixedParts r.provider c.stream).1 ++ model ++ (fixedParts r.provider c.stream).2 ∧
      (model = "" ∨ model = r.model) ∧ ∀ x ∈ model.toList, identifierChar x = true := by
  have hchars := identifier_chars hmodel
  have hempty : ∀ x ∈ "".toList, identifierChar x = true := fun x hx => absurd hx List.not_mem_nil
  unfold adapterRequest at h
  unfold fixedParts
  split at h
  · rename_i hp
    cases h
    exact ⟨"", by simp [hp], .inl rfl, hempty⟩
  split at h
  · rename_i hp
    cases h
    exact ⟨"", by simp [hp], .inl rfl, hempty⟩
  split at h
  · rename_i hp
    cases h
    exact ⟨r.model, by simp [hp], .inr rfl, hchars⟩
  split at h
  · rename_i hp
    cases h
    exact ⟨r.model, by simp [hp, pathEscape_identifier hchars], .inr rfl, hchars⟩
  · cases h

theorem fixedParts_slash (provider : String) (stream : Bool) :
    (fixedParts provider stream).1.toList.head? = some '/' := by
  unfold fixedParts
  split
  · rfl
  split
  · rfl
  split
  · dsimp only
    rfl
  · dsimp only
    rfl

theorem credentialHeaders_plain {lib : Lib} {r : Route} {pc : ProviderConfig} :
    ∀ h ∈ credentialHeaders lib r pc,
      h ∈ plainHeaders ∨ credential r.provider (lib.getenv pc.keyEnv) = some h := by
  intro h hh
  unfold credentialHeaders at hh
  unfold credential
  split at hh
  · rename_i hp
    rw [if_pos hp, List.mem_singleton.mp hh]
    exact .inr rfl
  rename_i ho
  rw [if_neg ho]
  split at hh
  · rename_i hp
    rw [if_pos hp]
    rcases List.mem_cons.mp hh with rfl | hh
    · exact .inr rfl
    · rw [List.mem_singleton.mp hh]
      exact .inl (by simp [plainHeaders])
  rename_i ha
  rw [if_neg ha]
  split at hh
  · rename_i hp
    rw [if_pos hp, List.mem_singleton.mp hh]
    exact .inr rfl
  · exact absurd hh List.not_mem_nil

theorem secureURL_parsed {lib : Lib} {s : String} {isLocal : Bool} (h : secureURL lib s isLocal = true) :
    ∃ u, lib.parseURL s = some u ∧ u.scheme ≠ "" ∧ u.host ≠ "" := by
  unfold secureURL at h
  split at h
  · cases h
  · rename_i u hu
    split at h
    · cases h
    · rename_i hok
      refine ⟨u, hu, ?_, fun hhost => hok (.inl hhost)⟩
      intro hscheme
      simp [hscheme] at h

theorem unsigned_confined {lib : Lib} (hlib : Syntactic lib.parseURL) {c : Chat} {r : Route}
    {pc : ProviderConfig} {isLocal : Bool} {u : Upstream} (hmodel : identifier r.model = true)
    (hsecure : secureURL lib pc.url isLocal = true) (h : unsigned lib c r pc = some u)
    (signed : List (String × String)) (hsigned : r.provider ≠ "bedrock" → signed = []) :
    Confined lib c r pc { u with headers := u.headers ++ signed } := by
  unfold unsigned at h
  split at h
  · cases h
  rename_i path body hrequest
  dsimp only at h
  split at h
  · cases h
  cases h
  obtain ⟨model, hpath, hkind, hchars⟩ := adapterRequest_path hmodel hrequest
  obtain ⟨parsed, hparsed, hscheme, hhost⟩ := secureURL_parsed hsecure
  have hslash := fixedParts_slash r.provider c.stream
  obtain ⟨cs, hcs⟩ : ∃ cs, path.toList = '/' :: cs := by
    rw [hpath]
    cases hfirst : (fixedParts r.provider c.stream).1.toList with
    | nil => simp [hfirst] at hslash
    | cons x xs =>
      simp only [hfirst, List.head?_cons, Option.some.injEq] at hslash
      exact ⟨_, by simp [hfirst, hslash]; rfl⟩
  refine ⟨⟨model, by rw [← hpath], hkind, hchars, hslash⟩,
    origin_of_path hlib hparsed hscheme hhost hcs, ⟨_, signed, rfl, hsigned, ?_⟩⟩
  intro x hx
  rcases List.mem_append.mp hx with hx | hx
  · rcases List.mem_append.mp hx with hx | hx
    · rw [List.mem_singleton.mp hx]
      exact .inl List.mem_cons_self
    · split at hx
      · rw [List.mem_singleton.mp hx]
        exact .inl (by simp [plainHeaders])
      · exact absurd hx List.not_mem_nil
  · exact credentialHeaders_plain x hx

/-- With a configuration that passes its check, a route of a policy that was verified and any
chat: the request goes to the origin of the configured URL of the route's provider, on a path
of the adapter's own characters and the model, and carries the credential of no other
provider. -/
theorem policy_cannot_redirect (srv : Server) (hlib : Syntactic srv.lib.parseURL)
    (hvalid : srv.c.validate srv.lib = .ok ()) (ed25519Verify : Bytes → Bytes → Bytes → Bool)
    (store : PolicyStore) (raw : Bytes) (now : Int) (allowExpired : Bool) (p : Policy)
    (hverify : store.verify ed25519Verify raw now allowExpired = .ok p) (r : Route)
    (hr : r ∈ p.routes) (pc : ProviderConfig) (hpc : srv.c.providers.lookup r.provider = some pc)
    (chat : Chat) :
    (upstream srv chat r pc).Returns (fun o => ∀ u ∈ o, Confined srv.lib chat r pc u) := by
  have hmodel := (Routing.vouched_of_verify hverify).models r hr
  have hsecure := ((valid_of_validate hvalid).providers r.provider pc hpc).url
  have hconfined := fun u hu => unsigned_confined (u := u) hlib (c := chat) hmodel hsecure hu
  have hnone : ∀ u ∈ (none : Option Upstream), Confined srv.lib chat r pc u := fun u hu => nomatch hu
  unfold upstream
  split
  · exact hnone
  · rename_i u hu
    split
    · rename_i hb
      split
      · refine Prog.Returns.bind (Prog.returns_any _) (fun hs _ => ?_)
        cases hs with
        | none => exact hnone
        | some hs =>
          intro v hv
          cases hv
          exact hconfined u hu hs (fun hne => absurd hb hne)
      · exact hnone
    · intro v hv
      cases hv
      have h := hconfined u hu [] (fun _ => rfl)
      rwa [List.append_nil] at h

/-- A library that knows one kind of URL, that of a host behind `https`. -/
def hostLib : Lib :=
  { NoReplay.plainLib with
    parseURL := fun s =>
      if "https://h".toList.isPrefixOf s.toList then some ⟨"https", "h", "h", false, "", ""⟩
      else none }

theorem hostLib_syntactic : Syntactic hostLib.parseURL := by
  intro s u hs _ _
  simp only [hostLib] at hs
  split at hs
  · rename_i hprefix
    obtain ⟨rest, hrest⟩ := List.isPrefixOf_iff_prefix.mp hprefix
    exact ⟨"https".toList, 'h', rest, hrest.symm, by decide, by decide⟩
  · cases hs

def hostConfig : Config :=
  { NoReplay.plainConfig with
    providers := AList.insert "openai" { url := "https://host//", keyEnv := "KEY" } ∅ }

def hostServer : Server := { NoReplay.plainServer with c := hostConfig, lib := hostLib }

theorem policy_cannot_redirect_host :
    ∃ u, upstream hostServer {} ⟨"openai", "gpt-4.1"⟩ { url := "https://host//", keyEnv := "KEY" } =
        .ret (some u) ∧
      u.url = "https://host/v1/chat/completions" ∧
      Confined hostLib {} ⟨"openai", "gpt-4.1"⟩ { url := "https://host//", keyEnv := "KEY" } u := by
  have hreturns := policy_cannot_redirect hostServer hostLib_syntactic (by decide)
    Signer.lengths.verify Signer.acmeStore _ 1500 false (PolicyCache.acmePolicy 1)
    (PolicyCache.accepts_acme (by decide) _ _ rfl rfl) ⟨"openai", "gpt-4.1"⟩ (by decide)
    { url := "https://host//", keyEnv := "KEY" } (by decide) {}
  have hsome : (unsigned hostLib {} ⟨"openai", "gpt-4.1"⟩
      { url := "https://host//", keyEnv := "KEY" }).map Upstream.url =
      some "https://host/v1/chat/completions" := by decide
  obtain ⟨u, hu, hurl⟩ := Option.map_eq_some_iff.mp hsome
  have hret : upstream hostServer {} ⟨"openai", "gpt-4.1"⟩ { url := "https://host//", keyEnv := "KEY" } =
      .ret (some u) := by
    unfold upstream
    rw [show hostServer.lib = hostLib from rfl, hu]
    rfl
  rw [hret] at hreturns
  exact ⟨u, hret, hurl, hreturns u rfl⟩

end Switchboard.Proofs.Confinement
