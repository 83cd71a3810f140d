import Switchboard.Controlplane.Replay
import Switchboard.Proofs.Accepted

namespace Switchboard.Proofs.Reconstruct
open Text Gateway Controlplane Tally Ledger Events Document Verify Signer Accepted
open Effect (Monitor Prog Machine)

/-- The rows are as `publish` stores them: the envelope of a document it has validated and
signed, under the document's version. -/
def Published (ed : Ed25519) (t : PolicyTable) : Prop :=
  ∀ version row, t.lookup version = some row → ∃ d tenant now keyID seed clock,
    Loaded d ∧ Reasonable now ∧ validatePolicy d tenant now = .ok d ∧
    Controlplane.sign ed d keyID seed clock = .ok row.envelope ∧
    d.lookup "version" = some (.int version)

/-- A policy that a gateway has verified out of the answer that carries a row. -/
def Fetched (ed : Ed25519) (s : PolicyStore) (t : PolicyTable) (p : Policy) : Prop :=
  ∃ version row now allow, t.lookup version = some row ∧
    s.verify ed.verify (respond row.envelope) now allow = .ok p

section
variable {ed : Ed25519} {s : PolicyStore} {t : PolicyTable} {p : Policy}

/-- What the gateway reads in a published row is what was signed under the row's version. -/
theorem Published.fetched (h : Published ed t) (hp : Fetched ed s t p) :
    ∃ row, t.lookup p.version = some row ∧ p.version ≠ 0 ∧ p.Legible ∧
      validRoutes [] p.routes = true ∧ 0 < p.routes.length ∧
      row.envelope.payload = String.ofList (Base64.encode (Gateway.canonical p)) := by
  obtain ⟨version, row, now, allow, hrow, hv⟩ := hp
  obtain ⟨d, tenant, clock, keyID, seed, _, hd, hclock, hvalid, hsign, hversion⟩ := h version row hrow
  obtain ⟨q, hof, hacc, hsize, hdec, hcanon⟩ := verifier_reads_signed hd hclock hvalid
  obtain ⟨hid, -, henvelope⟩ := sign_ok hsign
  rw [henvelope] at hv
  obtain ⟨⟨e, key, sig, hc⟩, hp, -, -⟩ := verify_ok_iff.mp hv
  have hread := hc.decodes
  rw [strictJSON_respond (identifier_spec hid).1 (base64_spelled _) (base64_spelled _)] at hread
  obtain rfl := Option.some.inj hread
  have hpayload := hc.payload
  rw [envelopeOf, String.toList_ofList, Base64.decode_encode, Option.some.injEq] at hpayload
  -- both sides decode the same canonical bytes
  obtain rfl : q = p := by
    rw [hpayload, hp] at hdec
    exact (Option.some.inj hdec).symm
  obtain ⟨vs, hreads⟩ := policyOf_eq.mp hof
  have hpos := hacc.bounds.version.1
  obtain rfl := Py.int.inj (Option.some.inj (hreads.version.symm.trans hversion))
  refine ⟨row, hrow, by omega, hacc.bounds.legible (by omega), hacc.bounds.routes, hacc.bounds.few.1, ?_⟩
  rw [henvelope, hcanon]
  rfl

variable {lib : Builtins}

theorem document_of_payload (hb64 : ∀ b, lib.b64decode (Base64.encode b) = some b) (hp : p.Legible)
    {e : Envelope} (he : e.payload = String.ofList (Base64.encode (Gateway.canonical p))) :
    policyDocument lib e = .dict (loadedPolicy p) := by
  have hloads := jsonLoads_canonical hp
  have hdecoded := hb64 (Gateway.canonical p)
  have haligned := Base64.encode_aligned (Gateway.canonical p)
  have hsome : (Base64.encode (Gateway.canonical p)).isEmpty = false := by
    refine List.isEmpty_eq_false_iff.mpr (fun hnil => ?_)
    -- the empty payload would decode to nothing, which is no JSON
    rw [hnil, ← show Base64.encode [] = [] from rfl, hb64 [], Option.some.injEq] at hdecoded
    rw [← hdecoded] at hloads
    cases hloads
  simp only [policyDocument, he, String.toList_ofList, hsome, Bool.false_eq_true, if_false, haligned,
    Nat.sub_zero, Nat.mod_self, List.replicate_zero, List.append_nil, hdecoded, Option.bind_some, hloads,
    Option.getD_some]

end

section
variable {v : Py} {vs : List Py} {r : Route} {rs : List Route}

theorem provider_of_route (h : RouteIs v r) : getItem "provider" .none v = .ok (.str r.provider) := by
  obtain ⟨d, rfl, -, hp, -⟩ := h
  rw [getItem, hp, Option.getD_some]

theorem providers_of_routes (h : List.Forall₂ RouteIs vs rs) :
    vs.mapM providerOf = .ok (rs.map (fun r => .str r.provider)) := by
  induction h with
  | nil => rfl
  | cons hr _ ih =>
    rw [List.mapM_cons, ih, providerOf, provider_of_route hr]
    rfl

/-- No two routes have one provider, so that the first with it is the only one. -/
theorem servedModel_of_routes (h : List.Forall₂ RouteIs vs rs) (hn : (rs.map Route.provider).Nodup)
    (hr : r ∈ rs) : servedModel r.provider vs = .ok (.str r.model) := by
  induction h with
  | nil => cases hr
  | @cons v r' vs rs hv _ ih =>
    rw [List.map_cons, List.nodup_cons] at hn
    simp only [servedModel, provider_of_route hv, bind, Except.bind]
    rcases List.mem_cons.mp hr with rfl | hmem
    · obtain ⟨d, rfl, -, -, hm⟩ := hv
      rw [if_pos (by simp [isText]), getItem, hm, Option.getD_some]
    · have hne : r'.provider ≠ r.provider := by
        intro heq
        exact hn.1 (List.mem_map.mpr ⟨r, hmem, heq.symm⟩)
      rw [if_neg (by simpa [isText] using hne)]
      exact ih hn.2 hmem

end

section
variable {ed : Ed25519} {s : PolicyStore} {t : PolicyTable} {p : Policy} {lib : Builtins} {ev : EventRow}
  {model : String}

/-- The report on an event that names a route of the policy it was routed by, or none. -/
theorem reconstruct_fetched (hb64 : ∀ b, lib.b64decode (Base64.encode b) = some b)
    (hrows : Published ed t) (hp : Fetched ed s t p)
    (hversion : ev.event.policyVersion = if p.version = 0 then none else some p.version)
    (hnamed : ev.event.provider = "" ∨ ∃ r ∈ p.routes, ev.event.provider = r.provider ∧ model = r.model) :
    ∃ out vs, reconstruct lib ev (t.row ev.event.policyVersion) = .ok out ∧
      out.routes = .list vs ∧ List.Forall₂ RouteIs vs p.routes ∧
      (ev.event.provider = "" → out.consistent = none) ∧
      (ev.event.provider ≠ "" → out.consistent = some true ∧ out.model = .str model) := by
  obtain ⟨row, hrow, hpos, hlegible, hvalid, hsome, hpayload⟩ := hrows.fetched hp
  have hfound : t.row ev.event.policyVersion = some row := by
    rw [hversion, if_neg hpos, PolicyTable.row, if_neg hpos, hrow]
  rw [hfound]
  obtain ⟨vs, hlisted, hall⟩ : ∃ vs, (loadedPolicy p).lookup "routes" = some (.list vs) ∧
      List.Forall₂ RouteIs vs p.routes := ⟨_, (reads_loaded p).listed, loads_routes p.routes⟩
  have hroutes : routesOf lib row.envelope = .ok (.list vs) := by
    rw [routesOf, document_of_payload hb64 hlegible hpayload, getItem, hlisted, Option.getD_some]
  have hfalsy : falsy lib (.list vs) = false := by
    have hlength := hall.length_eq
    rw [falsy, List.isEmpty_eq_false_iff, ← List.length_pos_iff]
    omega
  by_cases hblank : ev.event.provider = ""
  · refine ⟨?silent, vs, ?_, ?_⟩
    case refine_1 =>
      simp only [reconstruct, hroutes, bind, Except.bind, hfalsy, Bool.false_eq_true, if_false,
        if_pos hblank, pure, Except.pure]
      rfl
    exact ⟨rfl, hall, fun _ => rfl, fun hne => absurd hblank hne⟩
  · obtain ⟨r, hr, hname, rfl⟩ := hnamed.resolve_left hblank
    have hany : (p.routes.map (fun r => Py.str r.provider)).any (isText ev.event.provider) = true :=
      List.any_eq_true.mpr ⟨_, List.mem_map.mpr ⟨r, hr, rfl⟩, by simp [isText, hname]⟩
    have hmodel := servedModel_of_routes hall (validRoutes_iff.mp hvalid).2 hr
    rw [← hname] at hmodel
    refine ⟨?named, vs, ?_, ?_⟩
    case refine_1 =>
      simp only [reconstruct, hroutes, bind, Except.bind, hfalsy, Bool.false_eq_true, if_false,
        if_neg hblank, elements, providers_of_routes hall, hany, if_true, hmodel, pure, Except.pure]
      rfl
    exact ⟨rfl, hall, fun h => absurd h hblank, fun _ => ⟨rfl, rfl⟩⟩

end

section
variable {srv : Server}

theorem relied_of_policies {P : Policy → Prop} {g : Sheet} {log : List (Effect.Event Op Ans)}
    (h : ∀ p, ⟨.currentPolicy, some p⟩ ∈ log → P p) :
    (account srv { policy := P }).Relied g log := by
  induction log generalizing g with
  | nil => trivial
  | cons e log ih =>
    refine ⟨?_, ih (fun p hp => h p (List.mem_cons_of_mem _ hp))⟩
    obtain ⟨o, x⟩ := e
    cases o with
    | currentPolicy =>
      intro p hp
      obtain rfl : x = some p := hp
      exact h p List.mem_cons_self
    | now | randomID n | allow p => exact fun hf => hf.elim
    | _ => trivial

/-- What the control plane stores of an event. -/
theorem stored_fields {event : Gateway.Event} {d : Dict} {ev : Controlplane.Event}
    (hd : jsonLoads event.bytes = some (.dict d)) (hv : modelValidate d = some ev) :
    ev.provider = event.provider ∧
      ev.policyVersion = if event.policyVersion = 0 then none else some event.policyVersion := by
  obtain rfl := Py.dict.inj (Option.some.inj ((jsonLoads_bytes event).symm.trans hd))
  have hl := listed_docOf event
  obtain ⟨-, -, -, -, -, -, hprovider, -, -, -, -, hversion, -⟩ := modelValidate_iff.mp hv
  simp only [required, hl.provider, Option.bind_some, literal, Option.ite_none_right_eq_some,
    Option.some.injEq] at hprovider
  refine ⟨hprovider.2.symm, ?_⟩
  rw [Controlplane.optional, hl.policyVersion] at hversion
  by_cases hz : event.policyVersion = 0
  · rw [if_pos hz] at hversion ⊢
    exact (Option.some.inj hversion).symm
  · simp only [if_neg hz, atLeast] at hversion ⊢
    split at hversion
    · exact (Option.some.inj hversion).symm
    · cases hversion

end

/-- Whichever policies of the table come into force while a request runs: if its event names
a provider, the report on it is consistent, and gives the model that was last tried and the
signed routes. -/
theorem replay_reconstructs_routing (ed : Ed25519) (lib : Builtins)
    (hb64 : ∀ b, lib.b64decode (Base64.encode b) = some b) (s : PolicyStore) (t : PolicyTable)
    (hrows : Published ed t) (srv : Server) (r : Request)
    (log : List (Effect.Event Op Ans)) (event : Gateway.Event)
    (h : (chat srv r).Run log (.ret event))
    (hpolicies : ∀ p, ⟨.currentPolicy, some p⟩ ∈ log → Fetched ed s t p)
    (ev : EventRow) (d : Dict) (hd : jsonLoads event.bytes = some (.dict d))
    (hv : modelValidate d = some ev.event) :
    ∃ out, reconstruct lib ev (t.row ev.event.policyVersion) = .ok out ∧
      (event.provider = "" → out.consistent = none) ∧
      (event.provider ≠ "" → Names event (finalAnswer event log) ∧
        out.consistent = some true ∧ out.model = .str event.model ∧
        ∃ p vs, ⟨.currentPolicy, some p⟩ ∈ log ∧ p.version = event.policyVersion ∧
          out.routes = .list vs ∧ List.Forall₂ RouteIs vs p.routes) := by
  obtain ⟨hprovider, hversion⟩ := stored_fields hd hv
  have hemitted := Monitor.wp_run h (chat_spec srv
    { policy := fun p => ⟨.currentPolicy, some p⟩ ∈ log } (fun hf => hf.elim) (fun hf => hf) r)
    (relied_of_policies fun p hp => hp)
  obtain ⟨base, hanswered⟩ := hemitted.answered
  have hnames := hanswered.names
  rw [after_sent, List.append_nil] at hnames
  rcases hanswered.routed with ⟨-, hnone, -, hblank, -⟩ | ⟨p, hp, hfacts⟩
  · rw [hversion, if_pos hnone]
    exact ⟨_, rfl, fun _ => rfl, fun hne => absurd hblank hne⟩
  · have hnamed : event.provider = "" ∨
        ∃ route ∈ p.routes, event.provider = route.provider ∧ event.model = route.model := by
      rcases hfacts.nonneg.eq_or_lt with hzero | hpos
      · exact .inl (hfacts.unnamed hzero.symm).1
      · exact .inr (hfacts.named hpos)
    rw [hfacts.version] at hversion
    rw [← hprovider] at hnamed ⊢
    obtain ⟨out, vs, hout, hroutes, hall, hunnamed, htold⟩ :=
      reconstruct_fetched hb64 hrows (hpolicies p hp) hversion hnamed
    refine ⟨out, hout, hunnamed, fun hne => ⟨hnames, (htold hne).1, (htold hne).2, p, vs, hp,
      hfacts.version.symm, hroutes, hall⟩⟩

/-- The table with the policy that is in force in `served`. -/
def acmeTable : PolicyTable := AList.singleton 1 ⟨envelopeOf lengths "k1" (List.replicate 32 0)
  (Gateway.canonical (PolicyCache.acmePolicy 1)), 1500⟩

def decoding : Builtins := ⟨Base64.decode, fun _ => false⟩

theorem published_acme : Published lengths acmeTable := by
  intro version row hrow
  obtain ⟨rfl, ⟨⟩⟩ := Sigma.mk.inj (List.mem_singleton.mp (AList.mem_lookup_iff.mp hrow))
  have hbounds : Acceptable (PolicyCache.acmePolicy 1) "acme" 1500 :=
    PolicyCache.acceptable_acme (by decide)
  have hloaded : Loaded (loadedPolicy (PolicyCache.acmePolicy 1)) := loads_dict (loads_canonical _)
  have haccepted := accepted_loaded hbounds (by decide)
  obtain ⟨e, he⟩ : ∃ e, Controlplane.sign lengths (loadedPolicy (PolicyCache.acmePolicy 1)) "k1"
      (List.replicate 32 0) 1500 = .ok e := sign_of_accepted haccepted (by decide) (by decide)
  obtain ⟨-, -, rfl⟩ := sign_ok he
  rw [canonical_eq hloaded haccepted (hbounds.legible (by decide))] at he
  exact ⟨_, "acme", 1500, _, _, 1500, hloaded, by decide, validatePolicy_of_accepted haccepted, he,
    (reads_loaded _).version⟩

/-- The one policy that a request of `served` finds in force. -/
def findsAcme : Effect.Event Op Ans → Bool
  | ⟨.currentPolicy, p⟩ => decide (p = some (PolicyCache.acmePolicy 1))
  | _ => true

theorem served_event : ∃ event row, served.prog () = .ret (some event) ∧ event.provider = "openai" ∧
    event.model = "gpt-4.1" ∧ event.attempts = 1 ∧ modelValidate (docOf event) = some row ∧
    ∀ e ∈ served.log (), findsAcme e = true := by
  have hfacts : ((served.prog ()).result.bind id).any (fun event =>
      decide (event.provider = "openai" ∧ event.model = "gpt-4.1" ∧ event.attempts = 1) &&
        (modelValidate (docOf event)).isSome && (served.log ()).all findsAcme) = true := by decide +kernel
  cases he : (served.prog ()).result.bind id with
  | none =>
    rw [he] at hfacts
    cases hfacts
  | some event =>
    rw [he] at hfacts
    simp only [Option.any_some, Bool.and_eq_true, decide_eq_true_eq, List.all_eq_true] at hfacts
    obtain ⟨⟨⟨hprovider, hmodel, hattempts⟩, hvalid⟩, hfinds⟩ := hfacts
    obtain ⟨row, hrow⟩ := Option.isSome_iff_exists.mp hvalid
    obtain ⟨x, hx, hid⟩ := Option.bind_eq_some_iff.mp he
    cases hid
    exact ⟨event, row, Prog.eq_ret_of_result hx, hprovider, hmodel, hattempts, hrow, hfinds⟩

theorem replay_reconstructs_routing_served : ∃ ev out, ev.event.provider = "openai" ∧
    reconstruct decoding ev (acmeTable.row ev.event.policyVersion) = .ok out ∧
      out.consistent = some true ∧ out.model = .str "gpt-4.1" := by
  obtain ⟨event, row, hret, hprovider, hmodel, -, hrow, hfinds⟩ := served_event
  have hrun := Machine.run_of_reaches served_reached ()
  rw [hret] at hrun
  obtain ⟨r, hrun⟩ := chat_of_task hrun
  have hpolicies : ∀ p, ⟨.currentPolicy, some p⟩ ∈ served.log () →
      Fetched lengths acmeStore acmeTable p := by
    intro p hp
    obtain rfl := Option.some.inj (of_decide_eq_true (hfinds _ hp))
    exact ⟨1, _, 1500, false, rfl, PolicyCache.accepts_acme (by decide) acmeStore false rfl rfl⟩
  obtain ⟨out, hout, -, hnamed⟩ := replay_reconstructs_routing lengths decoding Base64.decode_encode
    acmeStore acmeTable published_acme _ r _ event hrun hpolicies ⟨row, 1500⟩ _
    (jsonLoads_bytes event) hrow
  obtain ⟨-, hconsistent, htold, -⟩ := hnamed (by rw [hprovider]; decide)
  exact ⟨_, out, (stored_fields (jsonLoads_bytes event) hrow).1.trans hprovider, hout, hconsistent,
    hmodel ▸ htold⟩

/-- Whatever requests run side by side while policies come and go: what an event says of the
routing of its request is what one verified policy says, or the request was not routed. -/
theorem event_tells_one_policy [DecidableEq ι] (ed25519Verify : Bytes → Bytes → Bytes → Bool)
    (srv : Server) (tasks : ι → Task) (w : World) (hempty : w.policies.current = none)
    (hclock : 0 < w.now) (c : Effect.Conf Op Ans World ι (Option Gateway.Event))
    (hr : (machine ed25519Verify srv).Reaches Machine.anyMove
      (.start w (fun i => (tasks i).run srv)) c)
    (i : ι) (event : Gateway.Event) (hi : c.prog i = .ret (some event)) :
    (event.policyVersion = 0 ∧ event.attempts = 0 ∧ event.provider = "" ∧ event.model = "" ∧
      event.fault = "" ∧ event.budgetSkipped = [] ∧ event.usage = {}) ∨
    ∃ p, Routing.Vouched ed25519Verify w.policies p ∧ event.policyVersion = p.version ∧
      event.replayed = false ∧ event.budgetSkipped.Sublist (p.routes.map label) ∧
      (event.fault = "" ∨ ∃ f : Fault, event.fault = f.string) ∧
      (event.attempts = 0 ∧ event.provider = "" ∧ event.model = "" ∨
        0 < event.attempts ∧ event.attempts ≤ srv.c.maxAttempts ∧
          ⟨event.provider, event.model⟩ ∈ p.routes) := by
  obtain ⟨hemitted, -⟩ := emitted_of_reaches hempty hclock hr hi
  obtain ⟨base, hanswered⟩ := hemitted.answered
  rcases hanswered.routed with ⟨-, hunrouted⟩ | ⟨p, hp, hfacts⟩
  · obtain ⟨hversion, hattempts, hprovider, hmodel, hfault, hskipped, husage⟩ := hunrouted
    exact .inl ⟨hversion, hattempts, hprovider, hmodel, hfault, hskipped, husage⟩
  · refine .inr ⟨p, hp, hfacts.version, hfacts.replayed, hfacts.skipped, hfacts.fault, ?_⟩
    rcases hfacts.nonneg.eq_or_lt with hzero | hpos
    · exact .inl ⟨hzero.symm, hfacts.unnamed hzero.symm⟩
    · obtain ⟨route, hroute, hprovider, hmodel⟩ := hfacts.named hpos
      rw [hprovider, hmodel]
      exact .inr ⟨hpos, hfacts.bounded hpos, hroute⟩

theorem event_tells_one_policy_served : ∃ event, ∃ p : Policy, served.prog () = .ret (some event) ∧
    event.policyVersion = p.version ∧ ⟨event.provider, event.model⟩ ∈ p.routes := by
  obtain ⟨event, -, hret, -, -, hattempts, -⟩ := served_event
  rcases event_tells_one_policy lengths.verify Events.telling _ Routing.waiting rfl (by decide) served
    served_reached () event hret with ⟨-, hnone, -⟩ | ⟨p, -, hversion, -, -, -, hnamed⟩
  · omega
  · rcases hnamed with ⟨hnone, -⟩ | ⟨-, -, hroute⟩
    · omega
    · exact ⟨event, p, hret, hversion, hroute⟩

end Switchboard.Proofs.Reconstruct
