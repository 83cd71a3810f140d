import Switchboard.Proofs.Document

namespace Switchboard.Proofs.Delivery
open Text Gateway Controlplane Document
open Effect (Prog Monitor Machine Conf)
open Gateway.Telemetry (SpoolOp SpoolAns Spooled Reply spooledFile batchBody ackAccepted readLimited)

abbrev Emitted := Gateway.Event

/-- What a table becomes by documents: nothing is lost, an id stays unique, and a new row is one
of the documents. -/
structure Grown (docs : List Dict) (t t' : TelemetryTable) : Prop where
  rows : ∀ r ∈ t.rows, r ∈ t'.rows
  refused : ∀ d ∈ t.refused, d ∈ t'.refused
  nodup : (t.rows.map TelemetryRow.id).Nodup → (t'.rows.map TelemetryRow.id).Nodup
  new : ∀ r ∈ t'.rows, r ∈ t.rows ∨
    ∃ d ∈ docs, ∃ ev, modelValidate d = some ev ∧ r = ⟨ev.id, ev.modelDump⟩

theorem Grown.refl (docs : List Dict) (t : TelemetryTable) : Grown docs t t :=
  ⟨fun _ h => h, fun _ h => h, fun h => h, fun _ h => .inl h⟩

theorem Grown.trans {docs : List Dict} {t u v : TelemetryTable} (h : Grown docs t u)
    (h' : Grown docs u v) : Grown docs t v := by
  refine ⟨fun r hr => h'.rows r (h.rows r hr), fun d hd => h'.refused d (h.refused d hd),
    fun hn => h'.nodup (h.nodup hn), fun r hr => ?_⟩
  rcases h'.new r hr with hr | hnew
  · exact h.new r hr
  · exact .inr hnew

theorem Grown.mono {docs docs' : List Dict} {t t' : TelemetryTable} (h : Grown docs t t')
    (hsub : ∀ d ∈ docs, d ∈ docs') : Grown docs' t t' := by
  refine ⟨h.rows, h.refused, h.nodup, fun r hr => ?_⟩
  rcases h.new r hr with hr | ⟨d, hd, ev, hev⟩
  · exact .inl hr
  · exact .inr ⟨d, hsub d hd, ev, hev⟩

theorem grown_insert {d : Dict} {ev : Controlplane.Event} (h : modelValidate d = some ev)
    (t : TelemetryTable) : Grown [d] t (t.insert ev) := by
  unfold TelemetryTable.insert
  split
  · exact Grown.refl _ t
  · rename_i hnone
    refine ⟨fun r hr => List.mem_append_left _ hr, fun _ hd => hd, fun hn => ?_, fun r hr => ?_⟩
    · rw [List.map_append, List.map_singleton, List.nodup_append]
      refine ⟨hn, List.nodup_singleton _, fun a ha b hb heq => hnone ?_⟩
      obtain ⟨r, hr, rfl⟩ := List.mem_map.mp ha
      rw [List.mem_singleton.mp hb] at heq
      exact List.any_eq_true.mpr ⟨r, hr, beq_iff_eq.mpr heq⟩
    · rcases List.mem_append.mp hr with hr | hr
      · exact .inl hr
      · exact .inr ⟨d, List.mem_singleton_self d, ev, h, List.mem_singleton.mp hr⟩

theorem grown_refuse (d : Dict) (t : TelemetryTable) : Grown [d] t (t.refuse d) :=
  ⟨fun _ h => h, fun _ h => List.mem_append_left _ h, fun h => h, fun _ h => .inl h⟩

theorem acceptable_valid {now : Int} {d : Dict} {ev : Controlplane.Event}
    (h : acceptable now d = some ev) : modelValidate d = some ev :=
  (Option.filter_eq_some_iff.mp h).1

theorem has_insert (t : TelemetryTable) (ev : Controlplane.Event) :
    ∃ r ∈ (t.insert ev).rows, r.id = ev.id := by
  unfold TelemetryTable.insert
  split
  · rename_i hany
    obtain ⟨r, hr, hid⟩ := List.any_eq_true.mp hany
    exact ⟨r, hr, beq_iff_eq.mp hid⟩
  · exact ⟨_, List.mem_append_right _ (List.mem_singleton_self _), rfl⟩

/-- What came of a batch: every id that is acknowledged is one of its documents and has a row,
and every other document was refused. -/
structure Decided (docs : List Dict) (ids : List String) (t : TelemetryTable) : Prop where
  taken : ∀ d ∈ docs, ∀ s, d.lookup "id" = some (.str s) → ids.contains s = false → d ∈ t.refused
  stored : ∀ s ∈ ids, ∃ r ∈ t.rows, r.id = s

theorem Decided.grown {docs docs' : List Dict} {ids : List String} {t t' : TelemetryTable}
    (h : Decided docs ids t) (hg : Grown docs' t t') : Decided docs ids t' := by
  refine ⟨fun d hd s hs hids => hg.refused d (h.taken d hd s hs hids), fun s hs => ?_⟩
  obtain ⟨r, hr, hid⟩ := h.stored s hs
  exact ⟨r, hg.rows r hr, hid⟩

/-- The loop over a batch. -/
theorem takeEvents_spec (now : Int) (docs : List Dict) : ∀ (seen : List Dict) (accepted : List String)
    (t : TelemetryTable), Decided seen accepted t →
      (∀ s ∈ accepted, hexadecimal 32 s = true) →
      let r := takeEvents now accepted t docs
      Grown docs t r.2 ∧ Decided (seen ++ docs) r.1 r.2 ∧ (∀ s ∈ r.1, hexadecimal 32 s = true) ∧
        r.1.length ≤ accepted.length + docs.length := by
  induction docs with
  | nil =>
    intro seen accepted t h hhex
    rw [List.append_nil]
    exact ⟨Grown.refl _ t, h, hhex, le_rfl⟩
  | cons d docs ih =>
    intro seen accepted t h hhex
    have hcons : ∀ x ∈ docs, x ∈ d :: docs := fun x hx => List.mem_cons_of_mem _ hx
    have hhead : ∀ x ∈ [d], x ∈ d :: docs := by
      intro x hx
      rw [List.mem_singleton.mp hx]
      exact List.mem_cons_self
    unfold takeEvents
    cases hd : acceptable now d with
    | none =>
      have hstep : Decided (seen ++ [d]) accepted (t.refuse d) := by
        refine ⟨fun x hx s hs hids => ?_, h.stored⟩
        rcases List.mem_append.mp hx with hx | hx
        · exact List.mem_append_left _ (h.taken x hx s hs hids)
        · rw [List.mem_singleton.mp hx]
          exact List.mem_append_right _ (List.mem_singleton_self d)
      obtain ⟨hgrown, hdecided, hall, hlen⟩ := ih (seen ++ [d]) accepted (t.refuse d) hstep hhex
      rw [List.append_assoc, List.singleton_append] at hdecided
      refine ⟨((grown_refuse d t).mono hhead).trans (hgrown.mono hcons), hdecided, hall, ?_⟩
      rw [List.length_cons]
      exact hlen.trans (by omega)
    | some ev =>
      have hvalid := acceptable_valid hd
      obtain ⟨hid, hhexid⟩ := modelValidate_id hvalid
      have hinsert := grown_insert hvalid t
      have hstep : Decided (seen ++ [d]) (accepted ++ [ev.id]) (t.insert ev) := by
        refine ⟨fun x hx s hs hids => ?_, fun s hs => ?_⟩
        · rw [List.contains_eq_mem, decide_eq_false_iff_not, List.mem_append, not_or] at hids
          rcases List.mem_append.mp hx with hx | hx
          · refine hinsert.refused x (h.taken x hx s hs ?_)
            rw [List.contains_eq_mem, decide_eq_false_iff_not]
            exact hids.1
          · rw [List.mem_singleton.mp hx, hid] at hs
            exact absurd (List.mem_singleton.mpr (Py.str.inj (Option.some.inj hs)).symm) hids.2
        · rcases List.mem_append.mp hs with hs | hs
          · obtain ⟨r, hr, hrid⟩ := h.stored s hs
            exact ⟨r, hinsert.rows r hr, hrid⟩
          · rw [List.mem_singleton.mp hs]
            exact has_insert t ev
      have hhex' : ∀ s ∈ accepted ++ [ev.id], hexadecimal 32 s = true := by
        intro s hs
        rcases List.mem_append.mp hs with hs | hs
        · exact hhex s hs
        · rw [List.mem_singleton.mp hs]
          exact hhexid
      obtain ⟨hgrown, hdecided, hall, hlen⟩ :=
        ih (seen ++ [d]) (accepted ++ [ev.id]) (t.insert ev) hstep hhex'
      rw [List.append_assoc, List.singleton_append] at hdecided
      refine ⟨(hinsert.mono hhead).trans (hgrown.mono hcons), hdecided, hall, ?_⟩
      rw [List.length_append, List.length_singleton] at hlen
      rw [List.length_cons]
      exact hlen.trans (by omega)

theorem hexadecimal_plain {n : Nat} {s : String} (h : hexadecimal n s = true) :
    Json.Spelled GoJson.PlainChar s ∧ s.toList.length = n := by
  obtain ⟨hlen, hall⟩ := Bool.and_eq_true_iff.mp h
  have hplain : ∀ c ∈ "0123456789abcdef".toList, GoJson.PlainChar c := by decide
  refine ⟨fun c hc => hplain c ?_, beq_iff_eq.mp hlen⟩
  have hmem := List.all_eq_true.mp hall c hc
  simpa using hmem

theorem elements_strings (ids : List String) :
    GoJson.elements "" GoJson.string [] (ids.map Json.str) = some ids := by
  induction ids with
  | nil => rfl
  | cons s ids ih =>
    rw [List.map_cons, GoJson.elements, List.tail_nil, ih]
    rfl

theorem over_accepted {ids : List String} (hhex : ∀ s ∈ ids, hexadecimal 32 s = true) :
    Json.Over GoJson.PlainChar (acceptedJson ids) := by
  have helems : Json.OverElems GoJson.PlainChar (ids.map Json.str) := by
    induction ids with
    | nil => trivial
    | cons s ids ih =>
      obtain ⟨hs, hids⟩ := List.forall_mem_cons.mp hhex
      exact ⟨(hexadecimal_plain hs).1, ih hids⟩
  have hkey : ∀ c ∈ "accepted".toList, GoJson.PlainChar c := by decide
  exact ⟨⟨hkey, helems⟩, trivial⟩

theorem accepted_length {ids : List String} (hhex : ∀ s ∈ ids, hexadecimal 32 s = true) :
    (Json.plainText (acceptedJson ids)).length ≤ 35 * ids.length + 15 := by
  have helems := @Json.printElems_length (fun c => [c]) 34 (ids.map Json.str) (fun x hx => by
    obtain ⟨s, hs, rfl⟩ := List.mem_map.mp hx
    rw [Json.print, Json.quote_length, (hexadecimal_plain (hhex s hs)).2])
  have hkey : ("accepted".toList).length = 8 := by decide
  rw [List.length_map] at helems
  simp only [acceptedJson, Json.plainText, Json.print, Json.printFields, Json.printField, Json.printRest,
    List.length_append, List.length_cons, List.length_nil, Json.quote_length, hkey]
  omega

/-- The acknowledgement of a batch, as the gateway reads it. -/
theorem ackAccepted_response {ids : List String} (hhex : ∀ s ∈ ids, hexadecimal 32 s = true)
    (hlen : ids.length ≤ 200) :
    ackAccepted (readLimited 1048576 (jsonResponse 200 (acceptedJson ids)).reply.body).1 =
      some (some ids) := by
  have hover := over_accepted hhex
  have hdepth : (acceptedJson ids).depth ≤ GoJson.maxNestingDepth := by
    have hstr : Json.depthElems (ids.map Json.str) = 0 := by
      clear hhex hlen hover
      induction ids with
      | nil => rfl
      | cons s ids ih => rw [List.map_cons, Json.depthElems, ih]; rfl
    simp [acceptedJson, Json.depth, Json.depthFields, Json.depthField, hstr, GoJson.maxNestingDepth]
  have hbytes : (jsonResponse 200 (acceptedJson ids)).body = utf8 (Json.plainText (acceptedJson ids)) := by
    rw [jsonResponse, Json.print_verbatim _ (hover.mono (fun _ hc => Signer.escape_verbatim hc false))]
  have hshort : (jsonResponse 200 (acceptedJson ids)).body.length ≤ 1048576 := by
    have hplain := accepted_length hhex
    rw [hbytes, utf8_length_ascii (Json.plain_ascii _ (hover.mono (fun _ hc => hc.ascii)))]
    omega
  show ackAccepted ((jsonResponse 200 (acceptedJson ids)).body.take 1048576) = _
  rw [List.take_of_length_le hshort, hbytes, ackAccepted, GoJson.unmarshal, GoJson.scan_plain hover hdepth,
    Option.bind_some]
  simp +decide [acceptedJson, GoJson.struct, GoJson.members, GoJson.findField, GoJson.field,
    GoJson.pointer, GoJson.slice, elements_strings]

/-- An answer of a control plane as the gateway knows it. -/
def Answered (r : Reply) : Prop :=
  (r.status ≠ 200 ∧ r.status ≠ 404 ∧ r.status ≠ 405) ∨
    (r.status = 200 ∧ ∃ ids, ackAccepted (readLimited 1048576 r.body).1 = some (some ids))

/-- What was acknowledged by an answer to a batch is decided. -/
def Settles (es : List Emitted) (r : Reply) (t : TelemetryTable) : Prop :=
  ∀ ids, r.status = 200 → ackAccepted (readLimited 1048576 r.body).1 = some (some ids) →
    Decided (es.map docOf) ids t

theorem eventBatch_request (es : List Emitted) :
    eventBatch (.dict [("events", .list (es.map (fun e => Py.dict (docOf e))))]) = none ∨
      (eventBatch (.dict [("events", .list (es.map (fun e => Py.dict (docOf e))))]) =
        some (es.map docOf) ∧ es.length ≤ 200) := by
  have hdicts : (es.map (fun e => Py.dict (docOf e))).mapM asDict = some (es.map docOf) := by
    induction es with
    | nil => rfl
    | cons e es ih =>
      rw [List.map_cons, List.mapM_cons, ih]
      rfl
  have hread : eventBatch (.dict [("events", .list (es.map (fun e => Py.dict (docOf e))))]) =
      if 1 ≤ (es.map (fun e => Py.dict (docOf e))).length ∧
        (es.map (fun e => Py.dict (docOf e))).length ≤ 200 then
        (es.map (fun e => Py.dict (docOf e))).mapM asDict else none := by
    simp [eventBatch]
  rw [hread]
  split
  · rename_i hlen
    rw [List.length_map] at hlen
    exact .inr ⟨hdicts, hlen.2⟩
  · exact .inl rfl

theorem settles_failure (es : List Emitted) {r : Response} (h : r.status ≠ 200) (t : TelemetryTable) :
    Settles es r.reply t :=
  fun _ hstatus _ => absurd hstatus h

/-- The control plane serves a batch. -/
theorem serve_batch (v : Visit) (es : List Emitted) (t : TelemetryTable) :
    let r := serveTelemetry v "/v1/telemetry/batch" (GoJson.marshal (request es)) t
    Grown (es.map docOf) t r.2 ∧ Answered r.1.reply ∧ Settles es r.1.reply r.2 := by
  have hfails : ∀ (n : Int) (msg : String), n ≠ 200 → n ≠ 404 → n ≠ 405 →
      Grown (es.map docOf) t t ∧ Answered (detail n msg).reply ∧ Settles es (detail n msg).reply t :=
    fun n msg h200 h404 h405 => ⟨Grown.refl _ t, .inl ⟨h200, h404, h405⟩, settles_failure es h200 t⟩
  unfold serveTelemetry
  rw [if_pos rfl]
  unfold guarded
  split
  · exact hfails 408 _ (by decide) (by decide) (by decide)
  split
  · exact hfails 413 _ (by decide) (by decide) (by decide)
  rw [jsonLoads_request]
  dsimp only
  split
  · exact hfails 401 _ (by decide) (by decide) (by decide)
  rename_i role _
  rcases eventBatch_request es with hnone | ⟨hsome, hlen⟩
  · rw [hnone]
    exact hfails 422 _ (by decide) (by decide) (by decide)
  rw [hsome]
  dsimp only
  unfold telemetryBatch
  split
  · exact hfails 403 _ (by decide) (by decide) (by decide)
  obtain ⟨hgrown, hdecided, hhex, hcount⟩ := takeEvents_spec v.now (es.map docOf) [] [] t
    ⟨fun _ hd => (nomatch hd), fun _ hs => (nomatch hs)⟩ (fun _ hs => nomatch hs)
  rw [List.length_nil, Nat.zero_add, List.length_map] at hcount
  rw [List.nil_append] at hdecided
  have hack := ackAccepted_response hhex (hcount.trans hlen)
  refine ⟨hgrown, .inr ⟨rfl, _, hack⟩, fun ids _ hids => ?_⟩
  obtain rfl := Option.some.inj (Option.some.inj (hack.symm.trans hids))
  exact hdecided

/-- What one program of telemetry knows: the event it keeps; the files it has read; the batches
that were acknowledged; and what it has dropped. -/
structure Held where
  own : Option Emitted := none
  files : List (String × Bytes) := []
  settled : List (Bytes × List String) := []
  dropped : List String := []

/-- A file that the program has read, as it goes into a batch. -/
def Read (h : Held) (sp : Spooled) : Prop :=
  spooledFile sp.path (some sp.event) = some sp ∧ (sp.path, sp.event) ∈ h.files

/-- A file whose event was acknowledged or dropped after a batch with it was. -/
def Permitted (h : Held) (path : String) : Prop :=
  ∃ batch ids, (batchBody batch, ids) ∈ h.settled ∧ (∀ sp ∈ batch, Read h sp) ∧
    ∃ sp ∈ batch, sp.path = path ∧ (ids.contains sp.id = true ∨ sp.id ∈ h.dropped)

/-- A file is written by its own program, a batch is of files that were read, and a file is
removed with permission. -/
def rules : Monitor SpoolOp SpoolAns Held where
  may _ o x := match o, x with
    | .perEvent, b => b = false
    | .post _ _, some r => Answered r
    | _, _ => True
  ok h o := match o with
    | .atomicFile path b => ∃ e, h.own = some e ∧ path = e.id ++ ".json" ∧ b = e.bytes
    | .post path body => path = "/v1/telemetry/batch" ∧
        ∃ batch, body = batchBody batch ∧ ∀ sp ∈ batch, Read h sp
    | .remove path => Permitted h path
    | .fallBack => False
    | _ => True
  next h o x := match o, x with
    | .readFile path, some b => { h with files := h.files ++ [(path, b)] }
    | .post _ body, some r =>
      if r.status = 200 then
        match ackAccepted (readLimited 1048576 r.body).1 with
        | some (some ids) => { h with settled := h.settled ++ [(body, ids)] }
        | _ => h
      else h
    | .drop id, _ => { h with dropped := h.dropped ++ [id] }
    | _, _ => h

section
variable {h : Held}

@[simp] theorem wp_load {m : Telemetry.SpoolMetric} {Q : Int → Held → Prop} :
    rules.wp Q (Telemetry.load m) h ↔ ∀ x, Q x h :=
  Monitor.wp_neutral trivial (fun _ => trivial) (fun _ => rfl)

@[simp] theorem wp_add {m : Telemetry.SpoolMetric} {n : Int} {Q : Unit → Held → Prop} :
    rules.wp Q (Telemetry.add m n) h ↔ Q () h :=
  (Monitor.wp_neutral trivial (fun _ => trivial) (fun _ => rfl)).trans Unique.forall_iff

@[simp] theorem wp_drop {id : String} {Q : Unit → Held → Prop} :
    rules.wp Q (Telemetry.drop id) h ↔ Q () { h with dropped := h.dropped ++ [id] } :=
  (Monitor.wp_known trivial (fun _ => trivial)).trans Unique.forall_iff

@[simp] theorem wp_cancelled {Q : Bool → Held → Prop} :
    rules.wp Q Telemetry.cancelled h ↔ ∀ x, Q x h :=
  Monitor.wp_neutral trivial (fun _ => trivial) (fun _ => rfl)

@[simp] theorem wp_readDir {Q : Option (List String) → Held → Prop} :
    rules.wp Q Telemetry.readDir h ↔ ∀ x, Q x h :=
  Monitor.wp_neutral trivial (fun _ => trivial) (fun _ => rfl)

@[simp] theorem wp_perEvent {Q : Bool → Held → Prop} :
    rules.wp Q Telemetry.perEvent h ↔ Q false h := by
  refine ⟨fun hwp => hwp.2 false rfl, fun hq => ⟨trivial, fun x hx => ?_⟩⟩
  obtain rfl : x = false := hx
  exact hq

theorem wp_post {path : String} {body : Bytes} {Q : Option Reply → Held → Prop}
    (hok : rules.ok h (.post path body)) (hq : ∀ x, rules.may h (.post path body) x →
      Q x (rules.next h (.post path body) x)) : rules.wp Q (Telemetry.post path body) h :=
  ⟨hok, hq⟩

theorem wp_readFile {path : String} {Q : Option Bytes → Held → Prop} (hnone : Q none h)
    (hsome : ∀ b, Q (some b) { h with files := h.files ++ [(path, b)] }) :
    rules.wp Q (Telemetry.readFile path) h := by
  refine ⟨trivial, fun x _ => ?_⟩
  cases x with
  | none => exact hnone
  | some b => exact hsome b

theorem wp_persist {e : Emitted} (spoolBytes : Int) (he : h.own = some e) :
    rules.wp (fun _ _ => True) (Telemetry.persist spoolBytes e) h := by
  unfold Telemetry.persist
  simp only [Monitor.wp_bind_iff, wp_load]
  intro used
  split
  · exact wp_drop.mpr trivial
  · simp only [Monitor.wp_bind_iff, wp_load]
    intro count
    split
    · exact wp_drop.mpr trivial
    · rw [Monitor.wp_bind_iff]
      refine ⟨⟨e, he, rfl, rfl⟩, fun ok _ => ?_⟩
      cases ok with
      | true => simp
      | false => simp

theorem wp_remove {sp : Spooled} {Q : Unit → Held → Prop} (hok : Permitted h sp.path) (hq : Q () h) :
    rules.wp Q (Telemetry.remove sp) h := by
  unfold Telemetry.remove
  rw [Monitor.wp_bind_iff]
  refine ⟨hok, fun ok _ => ?_⟩
  change rules.wp _ _ h
  cases ok with
  | true => simpa using hq
  | false => simpa using hq

theorem wp_settleBatch {all : List Spooled} {ids : List String} (batch : List Spooled)
    (hsub : ∀ sp ∈ batch, sp ∈ all) {h : Held} (hs : (batchBody all, ids) ∈ h.settled)
    (hread : ∀ sp ∈ all, Read h sp) :
    rules.wp (fun _ _ => True) (Telemetry.settleBatch ids batch) h := by
  induction batch generalizing h with
  | nil => trivial
  | cons sp batch ih =>
    obtain ⟨hsp, hrest⟩ := List.forall_mem_cons.mp hsub
    unfold Telemetry.settleBatch
    by_cases hids : ids.contains sp.id = true
    · rw [if_pos hids, Monitor.wp_bind_iff]
      exact wp_remove ⟨all, ids, hs, hread, sp, hsp, rfl, .inl hids⟩ (ih hrest hs hread)
    · rw [if_neg hids, Monitor.wp_bind_iff, wp_drop, Monitor.wp_bind_iff]
      have hdropped : sp.id ∈ h.dropped ++ [sp.id] :=
        List.mem_append_right _ (List.mem_singleton_self _)
      refine wp_remove ⟨all, ids, hs, hread, sp, hsp, rfl, .inr hdropped⟩ ?_
      exact ih hrest hs hread

theorem wp_send {batch : List Spooled} (hread : ∀ sp ∈ batch, Read h sp) :
    rules.wp (fun _ _ => True) (Telemetry.send batch) h := by
  unfold Telemetry.send
  simp only [Monitor.wp_bind_iff, wp_perEvent]
  rw [if_neg Bool.false_ne_true, Monitor.wp_bind_iff]
  refine wp_post ⟨rfl, batch, rfl, hread⟩ (fun x hx => ?_)
  cases x with
  | none => simp
  | some r =>
    have hanswered : Answered r := hx
    dsimp only
    rcases hanswered with ⟨h200, h404, h405⟩ | ⟨h200, ids, hids⟩
    · rw [if_neg (by simp [h404, h405]), if_pos h200]
      simp
    · rw [if_neg (by simp [h200]), if_neg (by simp [h200]), hids]
      dsimp only
      rw [Monitor.wp_bind_iff]
      have hnext : rules.next h (.post "/v1/telemetry/batch" (batchBody batch)) (some r) =
          { h with settled := h.settled ++ [(batchBody batch, ids)] } := by
        simp [rules, h200, hids]
      rw [hnext]
      have hs : (batchBody batch, ids) ∈ h.settled ++ [(batchBody batch, ids)] :=
        List.mem_append_right _ (List.mem_singleton_self _)
      refine Monitor.wp_mono (wp_settleBatch batch (fun _ hsp => hsp) hs hread) (fun _ _ _ => trivial)

theorem Read.file {sp : Spooled} (hr : Read h sp) (f : String × Bytes) :
    Read { h with files := h.files ++ [f] } sp :=
  ⟨hr.1, List.mem_append_left _ hr.2⟩

theorem spooledFile_some {path : String} {b : Bytes} {sp : Spooled}
    (h : spooledFile path (some b) = some sp) : sp.path = path ∧ sp.event = b := by
  unfold spooledFile at h
  dsimp only at h
  split at h
  · cases h
  · obtain ⟨ev, -, rfl⟩ := Option.map_eq_some_iff.mp h
    exact ⟨rfl, rfl⟩

theorem wp_deliverFiles (files : List String) : ∀ (batch : List Spooled) (bytes sent : Nat) (h : Held),
    (∀ sp ∈ batch, Read h sp) →
      rules.wp (fun _ _ => True) (Telemetry.deliverFiles batch bytes sent files) h := by
  induction files with
  | nil =>
    intro batch bytes sent h hread
    unfold Telemetry.deliverFiles
    split
    · rw [Monitor.wp_bind_iff]
      exact Monitor.wp_mono (wp_send hread) (fun _ _ _ => trivial)
    · trivial
  | cons f files ih =>
    intro batch bytes sent h hread
    unfold Telemetry.deliverFiles
    simp only [Monitor.wp_bind_iff, wp_cancelled]
    intro stop
    split
    · trivial
    split
    · exact ih batch bytes sent h hread
    rw [Monitor.wp_bind_iff]
    refine wp_readFile ?_ (fun b => ?_)
    · show rules.wp _ (Telemetry.add .diskErrors 1 >>= fun _ => _) h
      rw [Monitor.wp_bind_iff, wp_add]
      exact ih batch bytes sent h hread
    · have hread' : ∀ sp ∈ batch, Read { h with files := h.files ++ [(f, b)] } sp :=
        fun sp hsp => (hread sp hsp).file (f, b)
      cases hsp : spooledFile f (some b) with
      | none =>
        rw [Monitor.wp_bind_iff, wp_add]
        exact ih batch bytes sent _ hread'
      | some sp =>
        obtain ⟨hpath, hevent⟩ := spooledFile_some hsp
        have hnew : ∀ x ∈ batch ++ [sp], Read { h with files := h.files ++ [(f, b)] } x := by
          intro x hx
          rcases List.mem_append.mp hx with hx | hx
          · exact hread' x hx
          · rw [List.mem_singleton.mp hx]
            refine ⟨by rw [hpath, hevent]; exact hsp, ?_⟩
            rw [hpath, hevent]
            exact List.mem_append_right _ (List.mem_singleton_self _)
        dsimp only
        split
        · exact ih _ _ _ _ hnew
        · rw [Monitor.wp_bind_iff]
          refine Monitor.wp_mono (wp_send hnew) (fun ok h' _ => ?_)
          cases ok with
          | true => exact ih [] 0 _ h' (fun _ hsp => absurd hsp List.not_mem_nil)
          | false => trivial

theorem wp_deliver : rules.wp (fun _ _ => True) Telemetry.deliver h := by
  unfold Telemetry.deliver
  simp only [Monitor.wp_bind_iff, wp_readDir]
  intro files
  cases files with
  | none => exact wp_add.mpr trivial
  | some files => exact wp_deliverFiles files [] 0 0 h (fun _ hsp => absurd hsp List.not_mem_nil)

end

section
variable {ι : Type} {job : ι → Errand}

/-- An event that some program is to keep. -/
def Ours (job : ι → Errand) (e : Emitted) : Prop := ∃ i, job i = .persist e

def ownOf : Errand → Option Emitted
  | .persist e => some e
  | .deliver => none

/-- The file of one of these events. -/
def Filed (job : ι → Errand) (f : String × Bytes) : Prop :=
  ∃ e, Ours job e ∧ f.1 = e.id ++ ".json" ∧ f.2 = e.bytes

/-- A request with some of these events. -/
def Batched (job : ι → Errand) (q : String × Bytes) : Prop :=
  q.1 = "/v1/telemetry/batch" ∧ ∃ es, (∀ e ∈ es, Ours job e) ∧ q.2 = GoJson.marshal (request es)

/-- Where an event can be: in the spool, in the table, or among those that were refused and
counted. -/
def Accounted (x : Exchange) (e : Emitted) : Prop :=
  x.spool.lookup (e.id ++ ".json") = some e.bytes ∨ (∃ r ∈ x.table.rows, r.id = e.id) ∨
    (docOf e ∈ x.table.refused ∧ e.id ∈ x.dropped)

/-- A file that was written for an event of which account can be given. -/
def Kept (job : ι → Errand) (x : Exchange) (f : String × Bytes) : Prop :=
  ∃ e, Ours job e ∧ f = (e.id ++ ".json", e.bytes) ∧ Accounted x e

structure Inv (job : ι → Errand) (x : Exchange) (h : ι → Held) : Prop where
  owns : ∀ i, (h i).own = ownOf (job i)
  batch : x.perEvent = false
  spool : ∀ path b, x.spool.lookup path = some b → Filed job (path, b)
  files : ∀ i, ∀ f ∈ (h i).files, Filed job f
  late : ∀ q ∈ x.late, Batched job q
  nodup : (x.table.rows.map TelemetryRow.id).Nodup
  rows : ∀ r ∈ x.table.rows, ∀ e, Ours job e → r.id = e.id →
    ∃ ev, modelValidate (docOf e) = some ev ∧ r = ⟨ev.id, ev.modelDump⟩
  settled : ∀ i, ∀ q ∈ (h i).settled, ∃ es, q.1 = GoJson.marshal (request es) ∧
    Decided (es.map docOf) q.2 x.table
  dropped : ∀ i, ∀ id ∈ (h i).dropped, id ∈ x.dropped
  accounted : ∀ f ∈ x.written, Kept job x f

/-- No two programs keep events of one id. -/
def Unique (job : ι → Errand) : Prop :=
  ∀ i j e e', job i = .persist e → job j = .persist e' → e.id = e'.id → i = j

theorem Unique.eq {job : ι → Errand} (hu : Unique job) {e e' : Emitted} (he : Ours job e)
    (he' : Ours job e') (h : e.id = e'.id) : e = e' := by
  obtain ⟨i, hi⟩ := he
  obtain ⟨j, hj⟩ := he'
  obtain rfl := hu i j e e' hi hj h
  exact Errand.persist.inj (hi.symm.trans hj)

theorem path_inj {a b : String} (h : a ++ ".json" = b ++ ".json") : a = b := by
  have hlist := congrArg String.toList h
  rw [String.toList_append, String.toList_append] at hlist
  exact String.toList_inj.mp (List.append_cancel_right hlist)

theorem lookup_removeFile {files : List (String × Bytes)} {path other : String} (h : other ≠ path) :
    (Exchange.removeFile path files).lookup other = files.lookup other := by
  induction files with
  | nil => rfl
  | cons f files ih =>
    obtain ⟨k, b⟩ := f
    unfold Exchange.removeFile at ih ⊢
    rw [List.filter_cons, List.lookup_cons]
    by_cases hk : k = path
    · rw [if_neg (by simp [hk]), ih, beq_false_of_ne (fun heq => h (heq.trans hk))]
    · rw [if_pos (by simp [hk]), List.lookup_cons, ih]

theorem lookup_removed {files : List (String × Bytes)} {path other : String} {b : Bytes}
    (h : (Exchange.removeFile path files).lookup other = some b) : files.lookup other = some b := by
  by_cases hne : other = path
  · subst hne
    have hmem := mem_of_lookup h
    rw [Exchange.removeFile, List.mem_filter] at hmem
    simp at hmem
  · rwa [lookup_removeFile hne] at h

theorem lookup_setFile {files : List (String × Bytes)} {path other : String} {b : Bytes} :
    (Exchange.setFile path b files).lookup other =
      if other = path then some b else files.lookup other := by
  unfold Exchange.setFile
  rw [List.lookup_cons]
  by_cases hne : other = path
  · rw [if_pos hne, beq_iff_eq.mpr hne]
  · rw [if_neg hne, beq_false_of_ne hne]
    exact lookup_removeFile hne

/-- The events of a batch that was read. -/
theorem batch_events {h : Held} (hfiles : ∀ f ∈ h.files, Filed job f) {batch : List Spooled}
    (hread : ∀ sp ∈ batch, Read h sp) : ∃ es, (∀ e ∈ es, Ours job e) ∧
      List.Forall₂ (fun sp e => sp.event = e.bytes ∧ sp.path = e.id ++ ".json" ∧ sp.id = e.id) batch es := by
  induction batch with
  | nil => exact ⟨[], fun _ he => (nomatch he), .nil⟩
  | cons sp batch ih =>
    obtain ⟨hsp, hrest⟩ := List.forall_mem_cons.mp hread
    obtain ⟨es, hours, hall⟩ := ih hrest
    obtain ⟨e, he, hpath, hevent⟩ := hfiles _ hsp.2
    refine ⟨e :: es, List.forall_mem_cons.mpr ⟨he, hours⟩, .cons ⟨hevent, hpath, ?_⟩ hall⟩
    have hspooled := hsp.1
    simp only at hevent
    rw [hevent] at hspooled
    unfold spooledFile at hspooled
    dsimp only at hspooled
    split at hspooled
    · cases hspooled
    · obtain ⟨ev, hev, heq⟩ := Option.map_eq_some_iff.mp hspooled
      rw [← unmarshal_id hev, ← heq]

theorem batchBody_events {batch : List Spooled} {es : List Emitted}
    (h : List.Forall₂ (fun sp e => sp.event = e.bytes ∧ sp.path = e.id ++ ".json" ∧ sp.id = e.id) batch es) :
    batchBody batch = GoJson.marshal (request es) := by
  refine batchBody_request ?_
  induction h with
  | nil => rfl
  | cons hsp _ ih => rw [List.map_cons, List.map_cons, hsp.1, ih]

theorem request_docs {es es' : List Emitted}
    (h : GoJson.marshal (request es) = GoJson.marshal (request es')) : es.map docOf = es'.map docOf := by
  have hloads := jsonLoads_request es
  rw [h, jsonLoads_request es'] at hloads
  have hlist := Py.dict.inj (Option.some.inj hloads)
  have hpy : es'.map (fun e => Py.dict (docOf e)) = es.map (fun e => Py.dict (docOf e)) :=
    Py.list.inj (Prod.mk.inj (List.cons.inj hlist).1).2
  have hmap : (es.map docOf).map Py.dict = (es'.map docOf).map Py.dict := by
    rw [List.map_map, List.map_map]
    exact hpy.symm
  exact List.map_injective_iff.mpr (fun _ _ heq => Py.dict.inj heq) hmap

theorem exists_right {α β : Type} {R : α → β → Prop} {xs : List α} {ys : List β}
    (h : List.Forall₂ R xs ys) {x : α} (hx : x ∈ xs) : ∃ y ∈ ys, R x y := by
  induction h with
  | nil => cases hx
  | cons hr _ ih =>
    rcases List.mem_cons.mp hx with rfl | hx
    · exact ⟨_, List.mem_cons_self, hr⟩
    · obtain ⟨y, hy, hxy⟩ := ih hx
      exact ⟨y, List.mem_cons_of_mem _ hy, hxy⟩

/-- A file that may be removed is that of an event which is in the table, or was refused and
counted. -/
theorem Inv.permitted {x : Exchange} {h : ι → Held} (hi : Inv job x h) {i : ι} {path : String}
    (hp : Permitted (h i) path) : ∃ e, Ours job e ∧ path = e.id ++ ".json" ∧
      ((∃ r ∈ x.table.rows, r.id = e.id) ∨ (docOf e ∈ x.table.refused ∧ e.id ∈ x.dropped)) := by
  obtain ⟨batch, ids, hs, hread, sp, hsp, rfl, hfate⟩ := hp
  obtain ⟨es, hours, hall⟩ := batch_events (hi.files i) hread
  obtain ⟨es', hbody, hdecided⟩ := hi.settled i _ hs
  rw [batchBody_events hall] at hbody
  rw [← request_docs hbody] at hdecided
  obtain ⟨e, he, -, hpath, hid⟩ := exists_right hall hsp
  refine ⟨e, hours e he, hpath, ?_⟩
  by_cases hin : ids.contains sp.id = true
  · refine .inl ?_
    rw [hid] at hin
    exact hdecided.stored e.id (by simpa using hin)
  · have hout : ids.contains e.id = false := by
      rw [← hid]
      exact Bool.not_eq_true _ ▸ hin
    have hrefused := hdecided.taken (docOf e) (List.mem_map.mpr ⟨e, he, rfl⟩) e.id (lookup_id e) hout
    rcases hfate with hfate | hfate
    · exact absurd hfate hin
    · rw [hid] at hfate
      exact .inr ⟨hrefused, hi.dropped i _ hfate⟩

theorem Accounted.grown {x : Exchange} {docs : List Dict} {t : TelemetryTable} {e : Emitted}
    (h : Accounted x e) (hg : Grown docs x.table t) : Accounted { x with table := t } e := by
  rcases h with h | ⟨r, hr, hid⟩ | ⟨hrefused, hdropped⟩
  · exact .inl h
  · exact .inr (.inl ⟨r, hg.rows r hr, hid⟩)
  · exact .inr (.inr ⟨hg.refused _ hrefused, hdropped⟩)

/-- The control plane takes some of these events. -/
theorem Inv.grown {x : Exchange} {h : ι → Held} (hu : Unique job) (hi : Inv job x h)
    {es : List Emitted} (hours : ∀ e ∈ es, Ours job e) {t : TelemetryTable}
    (hg : Grown (es.map docOf) x.table t) : Inv job { x with table := t } h := by
  refine ⟨hi.owns, hi.batch, hi.spool, hi.files, hi.late, hg.nodup hi.nodup, ?_, ?_, hi.dropped, ?_⟩
  · intro r hr e he hid
    rcases hg.new r hr with hr | ⟨d, hd, ev, hvalid, rfl⟩
    · exact hi.rows r hr e he hid
    · obtain ⟨e', he', rfl⟩ := List.mem_map.mp hd
      have hsame : e' = e := hu.eq (hours e' he') he ((accepted_id hvalid).symm.trans hid)
      subst hsame
      exact ⟨ev, hvalid, rfl⟩
  · intro i q hq
    obtain ⟨es', hbody, hdecided⟩ := hi.settled i q hq
    exact ⟨es', hbody, hdecided.grown hg⟩
  · intro f hf
    exact (hi.accounted f hf).imp fun e ⟨he, hfile, hacc⟩ => ⟨he, hfile, hacc.grown hg⟩

theorem Inv.own {x : Exchange} {h : ι → Held} (hi : Inv job x h) {i : ι} {e : Emitted}
    (hown : (h i).own = some e) : job i = .persist e := by
  have hjob := hi.owns i
  rw [hown] at hjob
  cases hj : job i with
  | persist e' =>
    rw [hj] at hjob
    rw [Option.some.inj hjob]
  | deliver =>
    rw [hj] at hjob
    cases hjob

/-- The file of one of these events is written. -/
theorem Inv.put {x : Exchange} {h : ι → Held} (hu : Unique job) (hi : Inv job x h) {e : Emitted}
    (he : Ours job e) : Inv job (x.put (e.id ++ ".json") e.bytes) h := by
  refine ⟨hi.owns, hi.batch, fun path b hb => ?_, hi.files, hi.late, hi.nodup, hi.rows, hi.settled,
    hi.dropped, fun f hf => ?_⟩
  · dsimp only [Exchange.put] at hb
    rw [lookup_setFile] at hb
    split at hb
    · rename_i hpath
      exact ⟨e, he, hpath, (Option.some.inj hb).symm⟩
    · exact hi.spool path b hb
  · rcases List.mem_append.mp hf with hf | hf
    · obtain ⟨e', he', hfile, hspool | hrest⟩ := hi.accounted f hf
      · refine ⟨e', he', hfile, .inl ?_⟩
        dsimp only [Exchange.put]
        rw [lookup_setFile]
        split
        · rename_i hpath
          rw [hu.eq he he' (path_inj hpath).symm]
        · exact hspool
      · exact ⟨e', he', hfile, .inr hrest⟩
    · refine ⟨e, he, List.mem_singleton.mp hf, .inl ?_⟩
      dsimp only [Exchange.put]
      rw [lookup_setFile, if_pos rfl]

/-- A file that may be removed is. -/
theorem Inv.removeFile {x : Exchange} {h : ι → Held} (hu : Unique job) (hi : Inv job x h) {i : ι}
    {path : String} (hp : Permitted (h i) path) :
    Inv job { x with spool := Exchange.removeFile path x.spool } h := by
  obtain ⟨e, he, rfl, hfate⟩ := hi.permitted hp
  refine ⟨hi.owns, hi.batch, fun path b hb => hi.spool path b (lookup_removed hb), hi.files, hi.late,
    hi.nodup, hi.rows, hi.settled, hi.dropped, fun f hf => ?_⟩
  obtain ⟨e', he', hfile, hacc⟩ := hi.accounted f hf
  refine ⟨e', he', hfile, ?_⟩
  by_cases hid : e'.id = e.id
  · rw [hu.eq he' he hid]
    exact .inr hfate
  · rcases hacc with hspool | hrest
    · refine .inl ?_
      dsimp only
      rw [lookup_removeFile (fun hpath => hid (path_inj hpath))]
      exact hspool
    · exact .inr hrest

/-- An answer either tells a program nothing or settles a batch. -/
theorem next_post (g : Held) (path : String) (body : Bytes) (r : Reply) :
    rules.next g (.post path body) (some r) = g ∨
      ∃ ids, r.status = 200 ∧ ackAccepted (readLimited 1048576 r.body).1 = some (some ids) ∧
        rules.next g (.post path body) (some r) = { g with settled := g.settled ++ [(body, ids)] } := by
  simp only [rules]
  split
  · rename_i h200
    split
    · rename_i ids hids
      exact .inr ⟨ids, h200, hids, rfl⟩
    · exact .inl rfl
  · exact .inl rfl

theorem Inv.change {x x' : Exchange} {h : ι → Held} (hu : Unique job) (hi : Inv job x h)
    (hs : ∃ ch, x.change ch = some x') : Inv job x' h := by
  obtain ⟨ch, hs⟩ := hs
  cases ch with
  | restart =>
    obtain rfl := Option.some.inj hs
    exact ⟨hi.owns, rfl, hi.spool, hi.files, hi.late, hi.nodup, hi.rows, hi.settled, hi.dropped,
      hi.accounted⟩
  | arrive n v =>
    unfold Exchange.change at hs
    dsimp only at hs
    split at hs
    · cases hs
    · rename_i path body hlate
      obtain rfl := Option.some.inj hs
      obtain ⟨rfl, es, hours, rfl⟩ := hi.late _ (List.mem_of_getElem? hlate)
      have hgrown := (serve_batch v es x.table).1
      have hinv := hi.grown hu hours hgrown
      exact ⟨hinv.owns, hinv.batch, hinv.spool, hinv.files,
        fun q hq => hi.late q (List.mem_of_mem_eraseIdx hq), hinv.nodup, hinv.rows, hinv.settled,
        hinv.dropped, hinv.accounted⟩

theorem Inv.start {t : TelemetryTable} (hkeys : (t.rows.map TelemetryRow.id).Nodup)
    (hnew : ∀ r ∈ t.rows, ∀ i e, job i = .persist e → r.id ≠ e.id) :
    Inv job { table := t } (fun i => { own := ownOf (job i) }) := by
  refine ⟨fun _ => rfl, rfl, fun path b hb => ?_, fun _ f hf => ?_, fun q hq => ?_, hkeys,
    fun r hr e he hid => ?_, fun _ q hq => ?_, fun _ id hid => ?_, fun f hf => ?_⟩
  · cases hb
  · cases hf
  · cases hq
  · obtain ⟨i, hi⟩ := he
    exact absurd hid (hnew r hr i e hi)
  · cases hq
  · cases hid
  · cases hf

/-- With one row for each id, the rows of an id that has a row are that row. -/
theorem filter_key {rows : List TelemetryRow} (h : (rows.map TelemetryRow.id).Nodup) {r : TelemetryRow}
    (hr : r ∈ rows) : rows.filter (fun r' => r'.id == r.id) = [r] := by
  induction rows with
  | nil => cases hr
  | cons r' rows ih =>
    obtain ⟨hfirst, hrest⟩ := List.nodup_cons.mp h
    rcases List.mem_cons.mp hr with rfl | hr
    · rw [List.filter_cons, if_pos (beq_self_eq_true _), List.filter_eq_nil_iff.mpr]
      intro r' hr' hid
      exact hfirst (List.mem_map.mpr ⟨r', hr', beq_iff_eq.mp hid⟩)
    · have hne : ¬ (r'.id == r.id) = true := by
        intro hid
        exact hfirst (List.mem_map.mpr ⟨r, hr, (beq_iff_eq.mp hid).symm⟩)
      rw [List.filter_cons, if_neg hne]
      exact ih hrest hr

variable [DecidableEq ι]

/-- A program learns something. -/
theorem Inv.learns {x : Exchange} {h : ι → Held} (hi : Inv job x h) (i : ι) {g : Held}
    (hown : g.own = (h i).own)
    (hfiles : ∀ f ∈ g.files, f ∈ (h i).files ∨ Filed job f)
    (hsettled : ∀ q ∈ g.settled, q ∈ (h i).settled ∨ ∃ es, q.1 = GoJson.marshal (request es) ∧
      Decided (es.map docOf) q.2 x.table)
    (hdropped : ∀ id ∈ g.dropped, id ∈ (h i).dropped ∨ id ∈ x.dropped) :
    Inv job x (Function.update h i g) := by
  have hcases : ∀ (P : ι → Held → Prop), P i g → (∀ j, P j (h j)) →
      ∀ j, P j (Function.update h i g j) := by
    intro P hg hother j
    by_cases hj : j = i
    · rw [hj, Function.update_self]
      exact hg
    · rw [Function.update_of_ne hj]
      exact hother j
  constructor
  · exact hcases (fun j k => k.own = ownOf (job j)) (hown.trans (hi.owns i)) hi.owns
  · exact hi.batch
  · exact hi.spool
  · refine hcases (fun _ k => ∀ f ∈ k.files, Filed job f) (fun f hf => ?_) hi.files
    rcases hfiles f hf with hf | hf
    · exact hi.files i f hf
    · exact hf
  · exact hi.late
  · exact hi.nodup
  · exact hi.rows
  · refine hcases (fun _ k => ∀ q ∈ k.settled, ∃ es, q.1 = GoJson.marshal (request es) ∧
      Decided (es.map docOf) q.2 x.table) (fun q hq => ?_) hi.settled
    rcases hsettled q hq with hq | hq
    · exact hi.settled i q hq
    · exact hq
  · refine hcases (fun _ k => ∀ id ∈ k.dropped, id ∈ x.dropped) (fun id hid => ?_) hi.dropped
    rcases hdropped id hid with hid | hid
    · exact hi.dropped i id hid
    · exact hid
  · exact hi.accounted

/-- A request is sent. -/
theorem Inv.post {x x' : Exchange} {h : ι → Held} (hu : Unique job) (hi : Inv job x h) {i : ι}
    {batch : List Spooled} (hread : ∀ sp ∈ batch, Read (h i) sp) {f : Fate} {a : Option Reply}
    (hs : x.post "/v1/telemetry/batch" (batchBody batch) f = some (a, x')) :
    rules.may (h i) (.post "/v1/telemetry/batch" (batchBody batch)) a ∧
      Inv job x' (Function.update h i
        (rules.next (h i) (.post "/v1/telemetry/batch" (batchBody batch)) a)) := by
  obtain ⟨es, hours, hall⟩ := batch_events (hi.files i) hread
  have hbody := batchBody_events hall
  cases f with
  | unanswered =>
    obtain ⟨rfl, rfl⟩ := Prod.mk.inj (Option.some.inj hs)
    refine ⟨trivial, ?_⟩
    have hsame : rules.next (h i) (.post "/v1/telemetry/batch" (batchBody batch)) none = h i := rfl
    rw [hsame, Function.update_eq_self]
    refine ⟨hi.owns, hi.batch, hi.spool, hi.files, fun q hq => ?_, hi.nodup, hi.rows, hi.settled,
      hi.dropped, hi.accounted⟩
    rcases List.mem_append.mp hq with hq | hq
    · exact hi.late q hq
    · rw [List.mem_singleton.mp hq]
      exact ⟨rfl, es, hours, hbody⟩
  | failed r =>
    unfold Exchange.post at hs
    dsimp only at hs
    split at hs
    · cases hs
    · rename_i hstatus
      obtain ⟨rfl, rfl⟩ := Prod.mk.inj (Option.some.inj hs)
      simp only [not_or] at hstatus
      refine ⟨.inl hstatus, ?_⟩
      have hsame : rules.next (h i) (.post "/v1/telemetry/batch" (batchBody batch)) (some r) = h i := by
        simp [rules, hstatus.1]
      rw [hsame, Function.update_eq_self]
      exact hi
  | served v =>
    obtain ⟨hgrown, hanswered, hsettles⟩ := serve_batch v es x.table
    rw [← hbody] at hgrown hanswered hsettles
    generalize hserve : serveTelemetry v "/v1/telemetry/batch" (batchBody batch) x.table = answer
      at hgrown hanswered hsettles
    have hdone : some (some answer.1.reply, { x with table := answer.2 }) = some (a, x') := by
      rw [← hserve]
      exact hs
    obtain ⟨rfl, rfl⟩ := Prod.mk.inj (Option.some.inj hdone)
    have hinv := hi.grown hu hours hgrown
    refine ⟨hanswered, ?_⟩
    rcases next_post (h i) "/v1/telemetry/batch" (batchBody batch) answer.1.reply with
      hsame | ⟨ids, h200, hids, hnext⟩
    · rw [hsame, Function.update_eq_self]
      exact hinv
    · rw [hnext]
      refine hinv.learns i rfl (fun f hf => .inl hf) (fun q hq => ?_) (fun id hid => .inl hid)
      rcases List.mem_append.mp hq with hq | hq
      · exact .inl hq
      · rw [List.mem_singleton.mp hq]
        exact .inr ⟨es, hbody, hsettles ids h200 hids⟩

theorem Inv.step {x x' : Exchange} {h : ι → Held} (hu : Unique job) (hi : Inv job x h) {i : ι}
    {o : SpoolOp} {a : SpoolAns o} (hok : rules.ok (h i) o)
    (hs : ∃ ch, x.perform o ch = some (a, x')) :
    rules.may (h i) o a ∧ Inv job x' (Function.update h i (rules.next (h i) o a)) := by
  obtain ⟨ch, hs⟩ := hs
  cases o with
  | readDir =>
    cases ch with
    | flag ok =>
      obtain ⟨-, rfl⟩ := Prod.mk.inj (Option.some.inj hs)
      exact ⟨trivial, (Function.update_eq_self i h).symm ▸ hi⟩
    | quiet => cases hs
    | renamed => cases hs
    | fate f => cases hs
  | readFile path =>
    cases ch with
    | flag ok =>
      obtain ⟨ha, rfl⟩ := Prod.mk.inj (Option.some.inj hs)
      refine ⟨trivial, ?_⟩
      cases a with
      | none => exact (Function.update_eq_self i h).symm ▸ hi
      | some b =>
        refine hi.learns i rfl (fun f hf => ?_) (fun q hq => .inl hq) (fun id hid => .inl hid)
        rcases List.mem_append.mp hf with hf | hf
        · exact .inl hf
        · rw [List.mem_singleton.mp hf]
          split at ha
          · exact .inr (hi.spool path b ha)
          · cases ha
    | quiet => cases hs
    | renamed => cases hs
    | fate f => cases hs
  | atomicFile path b =>
    have hsame : ∀ a, rules.next (h i) (.atomicFile path b) a = h i := fun _ => rfl
    rw [hsame, Function.update_eq_self]
    refine ⟨trivial, ?_⟩
    obtain ⟨e, hown, rfl, rfl⟩ := hok
    have hours : Ours job e := ⟨i, hi.own hown⟩
    cases ch with
    | flag ok =>
      obtain ⟨-, rfl⟩ := Prod.mk.inj (Option.some.inj hs)
      cases ok with
      | false => exact hi
      | true => exact hi.put hu hours
    | renamed =>
      obtain ⟨-, rfl⟩ := Prod.mk.inj (Option.some.inj hs)
      exact hi.put hu hours
    | quiet => cases hs
    | fate f => cases hs
  | remove path =>
    cases ch with
    | flag ok =>
      have hsame : rules.next (h i) (.remove path) a = h i := rfl
      rw [hsame, Function.update_eq_self]
      refine ⟨trivial, ?_⟩
      unfold Exchange.perform at hs
      dsimp only at hs
      split at hs
      · obtain ⟨-, rfl⟩ := Prod.mk.inj (Option.some.inj hs)
        exact hi.removeFile hu hok
      · obtain ⟨-, rfl⟩ := Prod.mk.inj (Option.some.inj hs)
        exact hi
    | quiet => cases hs
    | renamed => cases hs
    | fate f => cases hs
  | post path body =>
    cases ch with
    | fate f =>
      obtain ⟨rfl, batch, rfl, hread⟩ := hok
      exact hi.post hu hread hs
    | quiet => cases hs
    | flag ok => cases hs
    | renamed => cases hs
  | load m =>
    obtain ⟨-, rfl⟩ := Prod.mk.inj (Option.some.inj hs)
    exact ⟨trivial, (Function.update_eq_self i h).symm ▸ hi⟩
  | add m n =>
    obtain ⟨-, rfl⟩ := Prod.mk.inj (Option.some.inj hs)
    refine ⟨trivial, (Function.update_eq_self i h).symm ▸ ?_⟩
    exact ⟨hi.owns, hi.batch, hi.spool, hi.files, hi.late, hi.nodup, hi.rows, hi.settled, hi.dropped,
      hi.accounted⟩
  | drop id =>
    obtain ⟨-, rfl⟩ := Prod.mk.inj (Option.some.inj hs)
    refine ⟨trivial, ?_⟩
    have hkeep : Inv job { x with dropped := x.dropped ++ [id] } h := by
      refine ⟨hi.owns, hi.batch, hi.spool, hi.files, hi.late, hi.nodup, hi.rows, hi.settled,
        fun j k hk => List.mem_append_left _ (hi.dropped j k hk), fun f hf => ?_⟩
      obtain ⟨e, he, hfile, hacc⟩ := hi.accounted f hf
      refine ⟨e, he, hfile, ?_⟩
      rcases hacc with hspool | hstored | ⟨hrefused, hdropped⟩
      · exact .inl hspool
      · exact .inr (.inl hstored)
      · exact .inr (.inr ⟨hrefused, List.mem_append_left _ hdropped⟩)
    refine hkeep.learns i rfl (fun f hf => .inl hf) (fun q hq => .inl hq) (fun k hk => ?_)
    rcases List.mem_append.mp hk with hk | hk
    · exact .inl hk
    · exact .inr (List.mem_append_right _ hk)
  | perEvent =>
    obtain ⟨rfl, rfl⟩ := Prod.mk.inj (Option.some.inj hs)
    exact ⟨hi.batch, (Function.update_eq_self i h).symm ▸ hi⟩
  | fallBack => exact absurd hok id
  | cancelled =>
    cases ch with
    | flag ok =>
      obtain ⟨-, rfl⟩ := Prod.mk.inj (Option.some.inj hs)
      exact ⟨trivial, (Function.update_eq_self i h).symm ▸ hi⟩
    | quiet => cases hs
    | renamed => cases hs
    | fate f => cases hs

/-- Delivery in batches neither loses an event nor stores it twice. Let any number of programs
keep events of different ids and deliver what is in the spool, in any interleaving, with file
operations that fail, requests and answers that are lost, and restarts. Then every file that was
written is still in the spool, or its event is stored once, or the event was refused and counted
as dropped. -/
theorem batches_deliver_once (spoolBytes : Int) (job : ι → Errand)
    (hunique : ∀ i j e e', job i = .persist e → job j = .persist e' → e.id = e'.id → i = j)
    (t : TelemetryTable) (hkeys : (t.rows.map TelemetryRow.id).Nodup)
    (hnew : ∀ r ∈ t.rows, ∀ i e, job i = .persist e → r.id ≠ e.id)
    (c : Conf SpoolOp SpoolAns Exchange ι Unit)
    (hr : exchange.machine.Reaches Machine.anyMove
      (.start { table := t } (fun i => (job i).run spoolBytes)) c)
    (path : String) (b : Bytes) (hw : (path, b) ∈ c.state.written) :
    ∃ k e, job k = .persist e ∧ path = e.id ++ ".json" ∧ b = e.bytes ∧
      (c.state.spool.lookup path = some b ∨
        (∃ ev, modelValidate (docOf e) = some ev ∧
          c.state.table.rows.filter (fun r => r.id == e.id) = [⟨e.id, ev.modelDump⟩]) ∨
        (docOf e ∈ c.state.table.refused ∧ e.id ∈ c.state.dropped)) := by
  have hprog : ∀ i, rules.wp (fun _ _ => True) ((job i).run spoolBytes) { own := ownOf (job i) } := by
    intro i
    cases hj : job i with
    | persist e => exact wp_persist spoolBytes rfl
    | deliver => exact wp_deliver
  have hinv := (Machine.invariant (G := rules) (I := Inv job) hprog (Inv.start hkeys hnew)
    (fun _ _ _ hi he _ => hi.change hunique he)
    (fun _ _ _ _ _ _ hi hok hs _ => hi.step hunique hok hs) hr).1
  obtain ⟨e, ⟨k, hk⟩, hfile, hacc⟩ := hinv.accounted (path, b) hw
  obtain ⟨rfl, rfl⟩ := Prod.mk.inj hfile
  refine ⟨k, e, hk, rfl, rfl, ?_⟩
  rcases hacc with hspool | ⟨r, hrow, hid⟩ | hrefused
  · exact .inl hspool
  · obtain ⟨ev, hvalid, rfl⟩ := hinv.rows r hrow e ⟨k, hk⟩ hid
    refine .inr (.inl ⟨ev, hvalid, ?_⟩)
    have hone := filter_key hinv.nodup hrow
    rw [← hid]
    exact hone
  · exact .inr (.inr hrefused)

end

def keptEvent : Emitted :=
  { id := "0123456789abcdef0123456789abcdef", requestID := "0123456789abcdef0123456789abcdef",
    traceID := "0123456789abcdef0123456789abcdef", spanID := "0123456789abcdef", provider := "openai",
    status := 200, attempts := 1, start := 1, finish := 2, policyVersion := 1, model := "m" }

def errands : Fin 3 → Errand
  | 0 => .persist keptEvent
  | _ => .deliver

/-- Every file operation works, and this becomes of requests. -/
def withFate (f : Fate) : SpoolOp → SpoolChance
  | .post _ _ => .fate f
  | .cancelled => .flag false
  | _ => .flag true

def agentVisit : Visit := { principal := some .agent, now := 2 }

/-- An event is written and sent, the request is given up and arrives after all; after a
restart the event is sent again. -/
def resent : Conf SpoolOp SpoolAns Exchange (Fin 3) Unit :=
  exchange.play (fun _ _ _ _ => true) (fun _ _ => true) 50
    [.go 0 (fun _ => false) (withFate .unanswered), .go 1 (fun _ => false) (withFate .unanswered),
      .env (.arrive 0 agentVisit), .env .restart,
      .go 2 (fun _ => false) (withFate (.served agentVisit))]
    (.start { table := {} } (fun i => (errands i).run 1000000))

theorem resent_delivered :
    resent.state.written = [(keptEvent.id ++ ".json", keptEvent.bytes)] ∧ resent.state.spool = [] ∧
      resent.state.dropped = [] := by
  decide +kernel

theorem resent_keeps (i : Fin 3) {e : Emitted} (h : errands i = .persist e) : i = 0 := by
  match i with
  | 0 => rfl
  | 1 => cases h
  | 2 => cases h

theorem batches_deliver_once_resent :
    resent.state.written = [(keptEvent.id ++ ".json", keptEvent.bytes)] ∧ resent.state.spool = [] ∧
      ∃ k e, errands k = .persist e ∧ keptEvent.id ++ ".json" = e.id ++ ".json" ∧
        keptEvent.bytes = e.bytes ∧
        (resent.state.spool.lookup (keptEvent.id ++ ".json") = some keptEvent.bytes ∨
          (∃ ev, modelValidate (docOf e) = some ev ∧
            resent.state.table.rows.filter (fun r => r.id == e.id) = [⟨e.id, ev.modelDump⟩]) ∨
          (docOf e ∈ resent.state.table.refused ∧ e.id ∈ resent.state.dropped)) := by
  obtain ⟨hwritten, hspool, -⟩ := resent_delivered
  refine ⟨hwritten, hspool, ?_⟩
  refine batches_deliver_once 1000000 errands ?_ {} List.nodup_nil (fun r hr => ?_) resent
    (Effect.Driver.play_reaches (fun _ _ _ _ _ => trivial) (fun _ _ _ => trivial) _ _ _) _ _ ?_
  · intro i j e e' hi hj _
    rw [resent_keeps i hi, resent_keeps j hj]
  · cases hr
  · rw [hwritten]
    exact List.mem_singleton_self _

end Switchboard.Proofs.Delivery
