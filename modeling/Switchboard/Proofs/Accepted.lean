import Switchboard.Proofs.Document
import Switchboard.Proofs.Events
import Switchboard.Proofs.Routing
import Switchboard.Proofs.Valid

namespace Switchboard.Proofs.Accepted
open Text Gateway Tally Ledger Honest Steps Document Routing Controlplane
open GoJson (PlainChar Short Within Members)
open Effect (Monitor Prog Machine Conf)

/-- What the control plane asks of an event, and what keeps it small. -/
structure Proper (e : Gateway.Event) : Prop where
  id : HexText 32 e.id
  requestID : HexText 32 e.requestID
  traceID : HexText 32 e.traceID
  spanID : HexText 16 e.spanID
  parentID : e.parentID = "" ∨ HexText 16 e.parentID
  provider : e.provider ∈ ["", "openai", "anthropic", "gemini", "bedrock"]
  status : 100 ≤ e.status ∧ e.status ≤ 599
  attempts : 0 ≤ e.attempts ∧ e.attempts ≤ 64
  clock : 0 < e.start ∧ e.start ≤ e.finish
  latest : e.finish ≤ 9223372036854775807
  version : 0 ≤ e.policyVersion ∧ e.policyVersion ≤ 9007199254740991
  model : Short 128 e.model
  fault : Short 128 e.fault
  skipped : e.budgetSkipped.length ≤ 4 ∧ ∀ s ∈ e.budgetSkipped, Short 138 s
  usage : Usage.Fits e.usage

section
variable {e : Gateway.Event}

theorem hexadecimal_of_hexText {n : Nat} {s : String} (h : HexText n s) : hexadecimal n s = true := by
  unfold hexadecimal
  simp only [h.1, BEq.rfl, Bool.true_and, List.all_eq_true, List.contains_eq_mem, decide_eq_true_eq]
  exact h.2

theorem short_of_hexText {n : Nat} {s : String} (h : HexText n s) : Short n s := by
  refine ⟨fun c hc => ?_, h.1.le⟩
  have hplain : ∀ c ∈ "0123456789abcdef".toList, PlainChar c := by decide
  exact hplain c (h.2 c hc)

theorem short_empty (n : Nat) : Short n "" := by
  refine ⟨fun c hc => ?_, Nat.zero_le n⟩
  cases hc

theorem short_providers : ∀ p ∈ ["", "openai", "anthropic", "gemini", "bedrock"], Short 9 p := by
  have hall : ∀ p ∈ ["", "openai", "anthropic", "gemini", "bedrock"],
      (∀ c ∈ p.toList, PlainChar c) ∧ p.toList.length ≤ 9 := by decide
  exact fun p hp => ⟨(hall p hp).1, (hall p hp).2⟩

/-- The event as the control plane's model holds it. -/
def received (e : Gateway.Event) : Controlplane.Event where
  id := e.id
  requestID := e.requestID
  traceID := e.traceID
  spanID := e.spanID
  parentID := if e.parentID = "" then none else some e.parentID
  provider := e.provider
  status := e.status
  attempts := e.attempts
  startNs := e.start
  endNs := e.finish
  policyVersion := if e.policyVersion = 0 then none else some e.policyVersion
  ext := loadsFields [] (sortKeys e.wire)

theorem loads_int (n : Int) : loads (Json.int n) = .int n := by
  simp [loads, Json.int, Json.intOf_intLit]

theorem keys_known (e : Gateway.Event) : (docOf e).all (fun f => eventKeys.contains f.1) = true := by
  unfold docOf Event.members
  by_cases hp : e.parentID = "" <;> by_cases hv : e.policyVersion = 0 <;> by_cases hw : e.wire = [] <;>
    simp [hp, hv, hw, eventKeys]

/-- The members of an event as the control plane finds them. -/
structure Listed (e : Gateway.Event) (d : Dict) : Prop where
  id : d.lookup "id" = some (.str e.id)
  requestID : d.lookup "request_id" = some (.str e.requestID)
  traceID : d.lookup "trace_id" = some (.str e.traceID)
  spanID : d.lookup "span_id" = some (.str e.spanID)
  parentID : d.lookup "parent_id" = if e.parentID = "" then none else some (.str e.parentID)
  provider : d.lookup "provider" = some (.str e.provider)
  status : d.lookup "status" = some (.int e.status)
  attempts : d.lookup "attempts" = some (.int e.attempts)
  startNs : d.lookup "start_ns" = some (.int e.start)
  endNs : d.lookup "end_ns" = some (.int e.finish)
  policyVersion : d.lookup "policy_version" =
    if e.policyVersion = 0 then none else some (.int e.policyVersion)
  ext : d.lookup "ext" =
    if e.wire = [] then none else some (.dict (loadsFields [] (sortKeys e.wire)))

theorem listed_docOf (e : Gateway.Event) : Listed e (docOf e) := by
  have hstr : ∀ s, loads (.str s) = .str s := fun _ => rfl
  have hmap : loads (GoJson.map e.wire) = .dict (loadsFields [] (sortKeys e.wire)) := rfl
  by_cases hp : e.parentID = "" <;> by_cases hv : e.policyVersion = 0 <;> by_cases hw : e.wire = [] <;>
    constructor <;> simp [docOf, Event.members, hp, hv, hw, List.lookup_cons, loads_int, hstr, hmap]

theorem pattern_hex {n : Nat} {s : String} (h : HexText n s) : pattern n (.str s) = some s := by
  rw [pattern, if_pos (hexadecimal_of_hexText h)]

/-- A proper event passes the control plane's model. -/
theorem Proper.validates (h : Proper e) : modelValidate (docOf e) = some (received e) := by
  have hl := listed_docOf e
  have hstart := h.clock.1
  have hfinish : 1 ≤ e.finish := Int.le_trans hstart h.clock.2
  refine modelValidate_iff.mpr ⟨keys_known e, ?_, ?_, ?_, ?_, ?_, ?_, ?_, ?_, ?_, ?_, ?_, ?_⟩
  · rw [required, hl.id]
    exact pattern_hex h.id
  · rw [required, hl.requestID]
    exact pattern_hex h.requestID
  · rw [required, hl.traceID]
    exact pattern_hex h.traceID
  · rw [required, hl.spanID]
    exact pattern_hex h.spanID
  · unfold Controlplane.optional
    rw [hl.parentID]
    by_cases hp : e.parentID = ""
    · simp [received, hp]
    · simp [received, hp, pattern_hex (h.parentID.resolve_left hp)]
  · rw [required, hl.provider]
    simp only [Option.bind_some, literal, List.contains_eq_mem, decide_eq_true h.provider, if_true]
    rfl
  · rw [required, hl.status]
    exact if_pos h.status
  · rw [required, hl.attempts]
    exact if_pos h.attempts
  · rw [required, hl.startNs]
    exact if_pos hstart
  · rw [required, hl.endNs]
    exact if_pos hfinish
  · unfold Controlplane.optional
    rw [hl.policyVersion]
    by_cases hv : e.policyVersion = 0
    · simp [received, hv]
    · have hone : 1 ≤ e.policyVersion := by
        have hnonneg := h.version.1
        omega
      simp [received, hv, atLeast, hone]
  · rw [defaulted, hl.ext]
    by_cases hw : e.wire = []
    · simp [received, hw, sortKeys, loadsFields]
    · simp [received, hw, asDict]

/-- It is also timely by a clock that is at most a minute behind. -/
theorem Proper.timely (h : Proper e) {now : Int} (hnow : e.finish ≤ now + 60000000000) :
    (received e).timely now = true := by
  have hclock := h.clock.2
  unfold Controlplane.Event.timely received
  rw [decide_eq_false (Int.not_lt.mpr hclock), decide_eq_false (Int.not_lt.mpr hnow)]
  rfl

theorem short_eventKeys : ∀ k ∈ eventKeys, Short 14 k := by
  have hall : ∀ k ∈ eventKeys, (∀ c ∈ k.toList, PlainChar c) ∧ k.toList.length ≤ 14 := by decide
  exact fun k hk => ⟨(hall k hk).1, (hall k hk).2⟩

theorem short_wireKeys : ∀ k ∈ wireKeys, Short 37 k := by
  have hall : ∀ k ∈ wireKeys, (∀ c ∈ k.toList, PlainChar c) ∧ k.toList.length ≤ 37 := by decide
  exact fun k hk => ⟨(hall k hk).1, (hall k hk).2⟩

theorem within_int64 {z : Int} (h : GoJson.inInt64 z = true) : Within 20 (Json.int z) := by
  apply Within.int
  have hrange := of_decide_eq_true h
  omega

theorem within_attrs {u : TokenUsage} (h : Usage.Fits u) :
    Members 305 (u.attrs.map (fun a => (a.1, Json.int a.2))) := by
  have hkey : ∀ a ∈ u.attrs, Short 37 a.1 := fun a ha =>
    short_wireKeys a.1 (List.drop_subset 5 _ ((attrs_sublist u).subset (List.mem_map_of_mem ha)))
  have hvalue : ∀ a ∈ u.attrs, GoJson.inInt64 a.2 = true := by
    intro a ha
    unfold TokenUsage.attrs at ha
    split at ha
    · cases ha
    · rcases List.mem_append.mp ha with ha | ha
      · simp only [List.mem_cons, List.not_mem_nil, or_false] at ha
        rcases ha with rfl | rfl
        · exact h.input
        · exact h.output
      · simp only [List.mem_filter, List.mem_cons, List.not_mem_nil, or_false] at ha
        rcases ha.1 with rfl | rfl | rfl
        · exact h.reasoning
        · exact h.cacheRead
        · exact h.cacheWrite
  have hlen : u.attrs.length ≤ 5 := by
    have hle := (attrs_sublist u).length_le
    rwa [List.length_map] at hle
  refine Members.mono (Members.each (a := 37) (b := 20) (fun f hf => ?_)) ?_
  · obtain ⟨a, ha, rfl⟩ := List.mem_map.mp hf
    exact ⟨hkey a ha, within_int64 (hvalue a ha)⟩
  · rw [List.length_map]
    omega

theorem Proper.wire (h : Proper e) : Members 1346 e.wire := by
  have hkey : ∀ k ∈ wireKeys, Short 37 k := short_wireKeys
  have hskipped : Within 566 (.arr (e.budgetSkipped.map .str)) := by
    refine Within.mono (Within.arr (n := 140) (fun x hx => ?_)) ?_
    · obtain ⟨s, hs, rfl⟩ := List.mem_map.mp hx
      exact Within.str (h.skipped.2 s hs)
    · have hfew := h.skipped.1
      rw [List.length_map]
      omega
  have hmodel := Members.option (p := e.model ≠ "") (hkey "model" (by decide)) (Within.str h.model)
  have hfault := Members.option (p := e.fault ≠ "") (hkey "fault" (by decide)) (Within.str h.fault)
  have hfailed := Members.option (p := e.streamFailed = true) (hkey "stream_failed" (by decide))
    (Within.bool true)
  have hreplay := Members.option (p := e.replayed = true) (hkey "idempotent_replay" (by decide))
    (Within.bool true)
  have hbudget := Members.option (p := e.budgetSkipped ≠ []) (hkey "budget_skipped" (by decide)) hskipped
  exact ((((hmodel.append hfault).append hfailed).append hreplay).append hbudget).append
    (within_attrs h.usage)

/-- A proper event can be sent. -/
theorem Proper.bytes (h : Proper e) : e.bytes.length ≤ 8192 := by
  have hkey : ∀ k ∈ eventKeys, Short 14 k := short_eventKeys
  have hhex : ∀ {n : Nat} {s : String}, HexText n s → n ≤ 32 → Within 34 (.str s) :=
    fun hs hn => (Within.str (short_of_hexText hs)).mono (by omega)
  have hint : ∀ {z : Int}, 0 ≤ z → z ≤ 9223372036854775807 → Within 34 (Json.int z) :=
    fun h0 h1 => (Within.int (by omega)).mono (by decide)
  have hstatus := h.status
  have hattempts := h.attempts
  have hclock := h.clock
  have hlatest := h.latest
  have hversion := h.version
  have hids : Members 208 [("id", .str e.id), ("request_id", .str e.requestID),
      ("trace_id", .str e.traceID), ("span_id", .str e.spanID)] := by
    refine Members.mono (Members.each (a := 14) (b := 34) ?_) (by simp)
    simp only [List.forall_mem_cons, List.not_mem_nil, false_imp_iff, implies_true, and_true]
    exact ⟨⟨hkey _ (by decide), hhex h.id (by decide)⟩, ⟨hkey _ (by decide), hhex h.requestID (by decide)⟩,
      ⟨hkey _ (by decide), hhex h.traceID (by decide)⟩, ⟨hkey _ (by decide), hhex h.spanID (by decide)⟩⟩
  have hparent : Within 34 (.str e.parentID) := by
    rcases h.parentID with hp | hp
    · rw [hp]
      exact Within.str (short_empty 32)
    · exact hhex hp (by decide)
  have hfields : Members 260 [("provider", .str e.provider), ("status", Json.int e.status),
      ("attempts", Json.int e.attempts), ("start_ns", Json.int e.start),
      ("end_ns", Json.int e.finish)] := by
    refine Members.mono (Members.each (a := 14) (b := 34) ?_) (by simp)
    simp only [List.forall_mem_cons, List.not_mem_nil, false_imp_iff, implies_true, and_true]
    exact ⟨⟨hkey _ (by decide), (Within.str (short_providers _ h.provider)).mono (by decide)⟩,
      ⟨hkey _ (by decide), hint (by omega) (by omega)⟩, ⟨hkey _ (by decide), hint (by omega) (by omega)⟩,
      ⟨hkey _ (by decide), hint (by omega) (by omega)⟩, ⟨hkey _ (by decide), hint (by omega) hlatest⟩⟩
  have hsecond := Members.option (p := e.parentID ≠ "") (hkey "parent_id" (by decide)) hparent
  have hfourth := Members.option (p := e.policyVersion ≠ 0) (hkey "policy_version" (by decide))
    (hint (z := e.policyVersion) (by omega) (by omega))
  have hlast := Members.option (p := e.wire ≠ []) (hkey "ext" (by decide)) h.wire.map
  have hall := (((hids.append hsecond).append hfields).append hfourth).append hlast
  exact hall.obj.marshal.trans (by decide)

end

section
variable {srv : Server}

theorem short_model {m : String} (h : identifier m = true) : Short 128 m :=
  ⟨(identifier_spec h).1, (identifier_spec h).2⟩

theorem short_fault (f : Fault) : Short 128 f.string := by
  have hall : (∀ c ∈ f.string.toList, PlainChar c) ∧ f.string.toList.length ≤ 128 := by
    cases f <;> decide
  exact ⟨hall.1, hall.2⟩

theorem known_provider {ed : Bytes → Bytes → Bytes → Bool} {s : PolicyStore} {p : Policy} {r : Route}
    (hp : Vouched ed s p) (hr : r ∈ p.routes) :
    r.provider ∈ ["", "openai", "anthropic", "gemini", "bedrock"] :=
  List.mem_cons_of_mem _ (hp.known r hr)

theorem short_label {ed : Bytes → Bytes → Bytes → Bool} {s : PolicyStore} {p : Policy} {r : Route}
    (hp : Vouched ed s p) (hr : r ∈ p.routes) : Short 138 (label r) := by
  have hprovider := short_providers r.provider (known_provider hp hr)
  have hcolon : Short 1 ":" := by
    have hall : (∀ c ∈ ":".toList, PlainChar c) ∧ ":".toList.length ≤ 1 := by decide
    exact ⟨hall.1, hall.2⟩
  exact (hprovider.append hcolon).append (short_model (hp.models r hr))

/-- What the status of a request can be. -/
theorem status_range {event : Gateway.Event} {g : Sheet} (h : Spoken srv.lib event g)
    (hreplay : ∀ e, g.prior = some (.ok (some e)) → e.status = 200) :
    100 ≤ event.status ∧ event.status ≤ 599 := by
  have hown : ∀ n ∈ ownStatuses, 100 ≤ n ∧ n ≤ 599 := by decide
  unfold Spoken at h
  split at h
  · rw [h.1]
    decide
  · rw [h.1]
    decide
  · rename_i e hprior
    rw [h.1, hreplay e hprior]
    decide
  · exact hown _ h.1

/-- What is assumed of the answers to a request: identifiers are random, the clock does not
go back, and policies were verified. -/
def relying (ed : Bytes → Bytes → Bytes → Bool) (s : PolicyStore) : Assume :=
  { steady := True, hex := True, policy := Vouched ed s }

theorem proper_of_emitted {ed : Bytes → Bytes → Bytes → Bool} {s : PolicyStore}
    {event : Gateway.Event} {g : Sheet} (h : Emitted (relying ed s) srv event g)
    (hmax : srv.c.maxAttempts ≤ 64) (hreplay : ∀ e, g.prior = some (.ok (some e)) → e.status = 200)
    (hlatest : event.finish ≤ 9223372036854775807) : Proper event := by
  obtain ⟨base, hanswered⟩ := h.answered
  obtain ⟨hid, hrequest, htrace, hspan, hparent⟩ := h.ids trivial
  obtain ⟨hstart, hfinish, -⟩ := h.clock trivial
  have hstatus := status_range hanswered.spoken hreplay
  rcases hanswered.routed with
    ⟨-, hversion, hattempts, hprovider, hmodel, hfault, hskipped, husage⟩ | ⟨p, hp, hfacts⟩
  · exact {
      id := hid, requestID := hrequest, traceID := htrace, spanID := hspan, parentID := hparent
      provider := hprovider ▸ List.mem_cons_self
      status := hstatus
      attempts := by omega
      clock := ⟨hstart, hfinish⟩
      latest := hlatest
      version := by omega
      model := hmodel ▸ short_empty 128
      fault := hfault ▸ short_empty 128
      skipped := by simp [hskipped]
      usage := husage ▸ Usage.fits_none }
  · have hvouched : Vouched ed s p := hp
    have hnamed : event.provider ∈ ["", "openai", "anthropic", "gemini", "bedrock"] ∧
        Short 128 event.model := by
      rcases hfacts.nonneg.eq_or_lt with hnone | hsome
      · obtain ⟨hprovider, hmodel⟩ := hfacts.unnamed hnone.symm
        rw [hprovider, hmodel]
        exact ⟨List.mem_cons_self, short_empty 128⟩
      · obtain ⟨r, hr, hprovider, hmodel⟩ := hfacts.named hsome
        rw [hprovider, hmodel]
        exact ⟨known_provider hvouched hr, short_model (hvouched.models r hr)⟩
    have hattempts : event.attempts ≤ 64 := by
      rcases hfacts.nonneg.eq_or_lt with hnone | hsome
      · omega
      · exact (hfacts.bounded hsome).trans hmax
    have hskipped : event.budgetSkipped.length ≤ 4 := by
      have hlen := hfacts.skipped.length_le
      rw [List.length_map] at hlen
      exact hlen.trans hvouched.count.2
    exact {
      id := hid, requestID := hrequest, traceID := htrace, spanID := hspan, parentID := hparent
      provider := hnamed.1
      status := hstatus
      attempts := ⟨hfacts.nonneg, hattempts⟩
      clock := ⟨hstart, hfinish⟩
      latest := hlatest
      version := by
        have hv := hvouched.version
        rw [hfacts.version]
        omega
      model := hnamed.2
      fault := by
        rcases hfacts.fault with hf | ⟨f, hf⟩
        · exact hf ▸ short_empty 128
        · exact hf ▸ short_fault f
      skipped := by
        refine ⟨hskipped, fun l hl => ?_⟩
        obtain ⟨r, hr, rfl⟩ := List.mem_map.mp (hfacts.skipped.subset hl)
        exact short_label hvouched hr
      usage := hfacts.usage }

end

/-- The process as requests rely on it: its policies were verified, and its clock has not
gone back since they looked at it. -/
structure Running {ι : Type} (ed : Bytes → Bytes → Bytes → Bool) (s : PolicyStore) (w : World)
    (g : ι → Sheet) : Prop where
  policies : Trusted ed s w.policies
  clock : 0 < w.now
  looked : ∀ i t, (g i).time = some t → t ≤ w.now

section
variable {ι : Type} {ed : Bytes → Bytes → Bytes → Bool} {s : PolicyStore} {srv : Server} {w w' : World}
  {g : ι → Sheet}

theorem hexText_hexEncode (b : Bytes) : HexText (2 * b.length) (Strings.hexEncode b) := by
  have hdigit : ∀ n < 16, Strings.hexDigit n ∈ "0123456789abcdef".toList := by decide
  unfold Strings.hexEncode HexText
  rw [String.toList_ofList]
  refine ⟨?_, fun c hc => ?_⟩
  · induction b with
    | nil => rfl
    | cons x b ih =>
      rw [List.flatMap_cons, List.length_append, ih]
      simp only [List.length_cons, List.length_nil]
      omega
  · obtain ⟨x, -, hx⟩ := List.mem_flatMap.mp hc
    have hlt := x.toNat_lt
    simp only [List.mem_cons, List.not_mem_nil, or_false] at hx
    rcases hx with rfl | rfl
    · exact hdigit _ (by omega)
    · exact hdigit _ (by omega)

theorem Running.change {c : Change} (h : Running ed s w g) (hc : w.change ed c = some w') :
    Running ed s w' g := by
  have haged := change_aged hc
  refine ⟨?_, h.clock.trans_le haged.now, fun i t ht => (h.looked i t ht).trans haged.now⟩
  rcases haged.policies with hp | ⟨raw, persist, written, hp⟩ | ⟨raw, hp⟩
  · rw [hp]
    exact h.policies
  · exact h.policies.apply hp
  · exact h.policies.restore hp

/-- What a request learns of the clock. -/
def clockOf : Effect.Event Op Ans → Option Int
  | ⟨.now, t⟩ => some t
  | _ => none

theorem next_time {A : Assume} (x : Sheet) (o : Op) (a : Ans o) :
    ((account srv A).next x o a).time = (clockOf ⟨o, a⟩).or x.time := by
  cases o with
  | wouldAllow p => cases a <;> rfl
  | allow p => cases a <;> rfl
  | ask o => cases o <;> rfl
  | tell o => cases o <;> rfl
  | _ => rfl

/-- An operation is answered as the request relies on it. -/
theorem Running.may {o : Op} {x : Ans o} {ch : Chance} (h : Running ed s w g) (i : ι)
    (hs : w.perform srv o ch = some (x, w')) : (account srv (relying ed s)).may (g i) o x := by
  cases o with
  | now =>
    cases hs
    exact fun _ => ⟨h.clock, h.looked i⟩
  | randomID n =>
    cases ch with
    | random b =>
      simp only [World.perform] at hs
      split at hs
      · rename_i hb
        cases hs
        exact fun _ => hb ▸ hexText_hexEncode b
      · cases hs
    | _ => cases hs
  | currentPolicy =>
    cases hs
    intro p hp
    exact h.policies.current p (current_policy hp).1
  | allow p => exact fun hf => hf.elim
  | _ => trivial

theorem Running.perform [DecidableEq ι] {o : Op} {x : Ans o} {ch : Chance} (h : Running ed s w g)
    (i : ι) (hs : w.perform srv o ch = some (x, w')) :
    Running ed s w' (Function.update g i ((account srv (relying ed s)).next (g i) o x)) := by
  have hkept := perform_kept hs
  refine ⟨hkept.policies ▸ h.policies, hkept.now ▸ h.clock, fun j t ht => ?_⟩
  rw [hkept.now]
  by_cases hj : j = i
  · subst hj
    rw [Function.update_self, next_time] at ht
    cases o with
    | now =>
      cases hs
      cases ht
      exact Int.le_refl _
    | _ => exact h.looked j t ht
  · rw [Function.update_of_ne hj] at ht
    exact h.looked j t ht

end

section
variable [DecidableEq ι] {ed : Bytes → Bytes → Bytes → Bool} {srv : Server} {tasks : ι → Task}
  {w : World} {P : Effect.Condition Op Ans World ι (Option Gateway.Event)}
  {c : Conf Op Ans World ι (Option Gateway.Event)}

/-- A request that has been handled, with what it relied on. -/
theorem emitted_of_reaches (hempty : w.policies.current = none) (hclock : 0 < w.now)
    (hr : (machine ed srv).Reaches P (.start w (fun i => (tasks i).run srv)) c) {i : ι}
    {event : Gateway.Event} (hi : c.prog i = .ret (some event)) :
    Emitted (relying ed w.policies) srv event ((account srv (relying ed w.policies)).after {} (c.log i)) ∧
      event.finish ≤ c.state.now := by
  have hinit : Running ed w.policies w (fun _ : ι => ({} : Sheet)) := by
    refine ⟨⟨rfl, rfl, ?_⟩, hclock, nofun⟩
    intro p hp
    rw [hempty] at hp
    cases hp
  obtain ⟨hrunning, hrelied⟩ := Machine.relied (M := machine ed srv)
    (G := account srv (relying ed w.policies)) (I := Running ed w.policies) hinit
    (fun w w' g h hc => h.change hc.choose_spec)
    (fun w w' g i o x h hs => ⟨h.may i hs.choose_spec, h.perform i hs.choose_spec⟩) hr
  have hrun := Machine.run_of_reaches hr i
  rw [hi] at hrun
  obtain ⟨r, hrun⟩ := chat_of_task hrun
  have hemitted := Monitor.wp_run hrun
    (chat_spec srv (relying ed w.policies) (fun hf => hf.elim) (fun hf => hf) r) (hrelied i)
  obtain ⟨-, -, t, ht, hle⟩ := hemitted.clock trivial
  exact ⟨hemitted, hle.trans (hrunning.looked i t ht)⟩

end

/-- Whatever requests run side by side while policies come and go: the event of a request
that has been handled is small enough to be sent, and a control plane whose clock is at
most a minute behind takes it for valid and timely. -/
theorem emitted_events_are_acceptable [DecidableEq ι]
    (ed25519Verify : Bytes → Bytes → Bytes → Bool) (srv : Server)
    (hvalid : srv.c.validate srv.lib = .ok ()) (tasks : ι → Task) (w : World)
    (hempty : w.policies.current = none) (hstore : HonestStore w.idem) (hclock : 0 < w.now)
    (c : Conf Op Ans World ι (Option Gateway.Event))
    (hr : (machine ed25519Verify srv).Reaches Machine.anyMove
      (.start w (fun i => (tasks i).run srv)) c)
    (hrange : c.state.now ≤ 9223372036854775807)
    (now : Int) (hahead : c.state.now ≤ now + 60000000000)
    (i : ι) (event : Gateway.Event) (hi : c.prog i = .ret (some event)) :
    emits (c.log i) = (if srv.telemetry = true then [event] else []) ∧
    event.bytes.length ≤ 8192 ∧
    ∃ d ev, jsonLoads event.bytes = some (.dict d) ∧ modelValidate d = some ev ∧
      ev.timely now = true := by
  obtain ⟨hemitted, hfinish⟩ := emitted_of_reaches hempty hclock hr hi
  have hmax := (valid_of_validate hvalid).attemptsBounded
  have hproper := proper_of_emitted hemitted (hmax.trans (by decide)) (fun e he => ?_)
    (hfinish.trans hrange)
  · refine ⟨?_, hproper.bytes, docOf event, received event, jsonLoads_bytes event, hproper.validates,
      hproper.timely (hfinish.trans hahead)⟩
    have hemits := hemitted.emits
    rwa [after_emits] at hemits
  · rcases after_prior he with hnone | ⟨k, body, hmem⟩
    · cases hnone
    · exact replays_answers hstore hr i k body e hmem

/-- A server that has just started is given a policy and then one request, which the
provider of the policy's one route turns away. -/
def served : Conf Op Ans World Unit (Option Gateway.Event) :=
  (driver Signer.lengths.verify Events.telling).play (fun _ _ _ _ => true) (fun _ _ => true) 200
    [.go () (fun _ => false) (NoReplay.smooth NoReplay.busy)]
    ⟨supplied, fun _ => (Task.chat (NoReplay.plainRequest "")).run Events.telling, fun _ => []⟩

theorem served_reached : (machine Signer.lengths.verify Events.telling).Reaches Machine.anyMove
    (.start waiting (fun _ => (Task.chat (NoReplay.plainRequest "")).run Events.telling)) served := by
  have hfirst := Relation.ReflTransGen.single (Machine.Move.env (P := Machine.anyMove)
    (.start waiting (fun _ : Unit => (Task.chat (NoReplay.plainRequest "")).run Events.telling))
    supplied (env_of_change Events.telling apply_acme) trivial)
  exact hfirst.trans
    (Effect.Driver.play_reaches (fun _ _ _ _ _ => trivial) (fun _ _ _ => trivial) _ _ _)

theorem emitted_events_are_acceptable_served :
    ∃ event, event.provider = "openai" ∧ event.attempts = 1 ∧ emits (served.log ()) = [event] ∧
      event.bytes.length ≤ 8192 ∧
      ∃ d ev, jsonLoads event.bytes = some (.dict d) ∧ modelValidate d = some ev ∧
        ev.timely (1500 * second) = true := by
  have hreturned : ((served.prog ()).result.bind id).any (fun event =>
      decide (event.provider = "openai") && decide (event.attempts = 1)) = true := by decide +kernel
  have hnow : served.state.now = 1500 * second := by decide +kernel
  cases he : (served.prog ()).result.bind id with
  | none =>
    rw [he] at hreturned
    cases hreturned
  | some event =>
    rw [he] at hreturned
    simp only [Option.any_some, Bool.and_eq_true, decide_eq_true_eq] at hreturned
    obtain ⟨x, hx, hid⟩ := Option.bind_eq_some_iff.mp he
    cases hid
    exact ⟨event, hreturned.1, hreturned.2, emitted_events_are_acceptable _ Events.telling
      (by decide) _ waiting rfl (Events.honest_new _ _ _) (by decide) served served_reached
      (by rw [hnow]; decide) _ (by rw [hnow]; decide) () event (Prog.eq_ret_of_result hx)⟩

end Switchboard.Proofs.Accepted
