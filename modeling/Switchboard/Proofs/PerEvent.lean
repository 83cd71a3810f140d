import Switchboard.Proofs.Delivery

namespace Switchboard.Proofs.PerEvent
open Text Gateway Controlplane Document Delivery
open Effect (Prog Machine Conf)
open Gateway.Telemetry (SpoolOp SpoolAns Spooled Reply acknowledges ackID readLimited sendPerEvent)

abbrev Step := Effect.Event SpoolOp SpoolAns

/-- An answer about the event itself: its id is acknowledged, or its content is turned down. -/
def Verdict (sp : Spooled) (r : Reply) : Prop := acknowledges sp r = true ∨ r.status = 422

/-- Every file that is removed is the file of an event of the batch that was sent last, and the
answer was a verdict on it. -/
def Warranted (batch : List Spooled) : Option (Bytes × Reply) → List Step → Prop
  | _, [] => True
  | last, ⟨.remove path, _⟩ :: tr =>
    (∃ sp ∈ batch, sp.path = path ∧ ∃ r, last = some (sp.event, r) ∧ Verdict sp r) ∧
      Warranted batch last tr
  | _, ⟨.post _ b, some r⟩ :: tr => Warranted batch (some (b, r)) tr
  | _, ⟨.post _ _, none⟩ :: tr => Warranted batch none tr
  | last, _ :: tr => Warranted batch last tr

/-- An answer that is taken for a verdict and is none. -/
def Mistaken (r : Reply) : Prop :=
  400 ≤ r.status ∧ r.status < 500 ∧ r.status ≠ 422 ∧ r.status ≠ 429

theorem acknowledges_status {sp : Spooled} {r : Reply} (h : acknowledges sp r = true) :
    r.status = 200 := by
  unfold acknowledges at h
  dsimp only at h
  rw [Bool.and_eq_true, Bool.and_eq_true] at h
  exact beq_iff_eq.mp h.1.2

theorem not_verdict {sp : Spooled} {r : Reply} (h : Mistaken r) : ¬ Verdict sp r := by
  obtain ⟨hlow, -, hcontent, -⟩ := h
  rintro (hack | hstatus)
  · have := acknowledges_status hack
    omega
  · exact hcontent hstatus

/-- What is counted. -/
def Counts (tr : List Step) : Prop := ∀ e ∈ tr, ∃ m n, e = ⟨.add m n, ()⟩

/-- What one after another is done about the events of a batch. -/
inductive Sent : List Spooled → List Step → Prop where
  | done : Sent [] []
  | unanswered (sp : Spooled) (batch : List Spooled) :
      Sent (sp :: batch) [⟨.post "/v1/telemetry" sp.event, none⟩, ⟨.add .exportErrors 1, ()⟩]
  | stopped (sp : Spooled) (batch : List Spooled) (r : Reply)
      (h : ¬ (400 ≤ r.status ∧ r.status < 500 ∧ r.status ≠ 429)) :
      Sent (sp :: batch) [⟨.post "/v1/telemetry" sp.event, some r⟩, ⟨.add .exportErrors 1, ()⟩]
  | acknowledged (sp : Spooled) (batch : List Spooled) (r : Reply) (h : acknowledges sp r = true)
      (ok : Bool) (counts tr : List Step) (hcounts : Counts counts) (hrest : Sent batch tr) :
      Sent (sp :: batch) (⟨.post "/v1/telemetry" sp.event, some r⟩ ::
        ⟨.remove sp.path, ok⟩ :: (counts ++ tr))
  | dropped (sp : Spooled) (batch : List Spooled) (r : Reply)
      (h : 400 ≤ r.status ∧ r.status < 500 ∧ r.status ≠ 429)
      (ok : Bool) (counts tr : List Step) (hcounts : Counts counts) (hrest : Sent batch tr) :
      Sent (sp :: batch) (⟨.post "/v1/telemetry" sp.event, some r⟩ :: ⟨.add .exportErrors 1, ()⟩ ::
        ⟨.drop sp.id, ()⟩ :: ⟨.remove sp.path, ok⟩ :: (counts ++ tr))

theorem remove_run {sp : Spooled} {tr : List Step} {u : Unit}
    (h : (Telemetry.remove sp).Run tr (.ret u)) :
    ∃ ok counts, tr = ⟨.remove sp.path, ok⟩ :: counts ∧ Counts counts := by
  obtain ⟨ok, ys, rfl, hys⟩ := Prog.Run.of_call h
  refine ⟨ok, ys, rfl, ?_⟩
  cases ok with
  | true =>
    obtain ⟨x, zs, rfl, hzs⟩ := Prog.Run.of_call hys
    cases hzs with
    | step _ _ y hrest =>
      obtain ⟨rfl, -⟩ := Prog.Run.of_ret hrest
      intro e he
      rcases List.mem_pair.mp he with rfl | rfl
      · exact ⟨_, _, rfl⟩
      · exact ⟨_, _, rfl⟩
  | false =>
    cases hys with
    | step _ _ y hrest =>
      obtain ⟨rfl, -⟩ := Prog.Run.of_ret hrest
      intro e he
      rw [List.mem_singleton.mp he]
      exact ⟨_, _, rfl⟩

theorem sent_of_run (batch : List Spooled) : ∀ {tr : List Step} {b : Bool},
    (sendPerEvent batch).Run tr (.ret b) → Sent batch tr := by
  induction batch with
  | nil =>
    intro tr b h
    obtain ⟨rfl, -⟩ := Prog.Run.of_ret h
    exact .done
  | cons sp batch ih =>
    intro tr b h
    unfold sendPerEvent at h
    obtain ⟨a, ys, rfl, hanswered⟩ := Prog.Run.of_call h
    cases a with
    | none =>
      obtain ⟨x, zs, rfl, hcounted⟩ := Prog.Run.of_call hanswered
      obtain ⟨rfl, -⟩ := Prog.Run.of_ret hcounted
      exact .unanswered sp batch
    | some r =>
      dsimp only at hanswered
      split at hanswered
      · rename_i hack
        obtain ⟨u, xs, zs, rfl, hremove, hrest⟩ := Prog.Run.of_bind hanswered
        obtain ⟨ok, counts, rfl, hcounts⟩ := remove_run hremove
        exact .acknowledged sp batch r hack ok counts zs hcounts (ih hrest)
      · obtain ⟨x, zs, rfl, hcounted⟩ := Prog.Run.of_call hanswered
        split at hcounted
        · rename_i hrefused
          obtain ⟨y, zs, rfl, hdropped⟩ := Prog.Run.of_call hcounted
          obtain ⟨u, xs, zs, rfl, hremove, hrest⟩ := Prog.Run.of_bind hdropped
          obtain ⟨ok, counts, rfl, hcounts⟩ := remove_run hremove
          exact .dropped sp batch r hrefused ok counts zs hcounts (ih hrest)
        · rename_i hkept
          obtain ⟨rfl, -⟩ := Prog.Run.of_ret hcounted
          exact .stopped sp batch r hkept

theorem warranted_counts {batch : List Spooled} {last : Option (Bytes × Reply)}
    {counts : List Step} (h : Counts counts) (tr : List Step) :
    Warranted batch last (counts ++ tr) ↔ Warranted batch last tr := by
  induction counts with
  | nil => exact Iff.rfl
  | cons e counts ih =>
    obtain ⟨m, n, rfl⟩ := h e List.mem_cons_self
    exact ih (fun e he => h e (List.mem_cons_of_mem _ he))

/-- The answers to the requests of a run. -/
def replies (tr : List Step) : List Reply :=
  tr.filterMap fun
    | ⟨.post _ _, some r⟩ => some r
    | _ => none

theorem replies_counts {counts : List Step} (h : Counts counts) (tr : List Step) :
    replies (counts ++ tr) = replies tr := by
  induction counts with
  | nil => rfl
  | cons e counts ih =>
    obtain ⟨m, n, rfl⟩ := h e List.mem_cons_self
    exact ih (fun e he => h e (List.mem_cons_of_mem _ he))

/-- The last answer before it does not matter to what is sent. -/
theorem warranted_sent {batch : List Spooled} {tr : List Step} (h : Sent batch tr) :
    ∀ (all : List Spooled) (last : Option (Bytes × Reply)), (∀ sp ∈ batch, sp ∈ all) →
      (Warranted all last tr ↔ ∀ r ∈ replies tr, ¬ Mistaken r) := by
  induction h with
  | done =>
    intro all last _
    exact ⟨fun _ _ hr => absurd hr List.not_mem_nil, fun _ => trivial⟩
  | unanswered sp batch =>
    intro all last _
    exact ⟨fun _ _ hr => absurd hr List.not_mem_nil, fun _ => trivial⟩
  | stopped sp batch r hkept =>
    intro all last _
    refine ⟨fun _ r' hr => ?_, fun _ => trivial⟩
    rw [List.mem_singleton.mp hr]
    rintro ⟨hlow, hhigh, -, hlimit⟩
    exact hkept ⟨hlow, hhigh, hlimit⟩
  | acknowledged sp batch r hack ok counts tr hcounts _ ih =>
    intro all last hall
    have hrest := ih all (some (sp.event, r)) (fun sp hsp => hall sp (List.mem_cons_of_mem _ hsp))
    have hreplies : replies (⟨.post "/v1/telemetry" sp.event, some r⟩ ::
        ⟨.remove sp.path, ok⟩ :: (counts ++ tr)) = r :: replies tr :=
      congrArg (r :: ·) (replies_counts hcounts tr)
    rw [hreplies, List.forall_mem_cons, ← hrest]
    constructor
    · rintro ⟨-, hw⟩
      refine ⟨fun hm => not_verdict hm (.inl hack), (warranted_counts hcounts tr).mp hw⟩
    · rintro ⟨-, hw⟩
      exact ⟨⟨sp, hall sp List.mem_cons_self, rfl, r, rfl, .inl hack⟩,
        (warranted_counts hcounts tr).mpr hw⟩
  | dropped sp batch r hrefused ok counts tr hcounts _ ih =>
    intro all last hall
    have hrest := ih all (some (sp.event, r)) (fun sp hsp => hall sp (List.mem_cons_of_mem _ hsp))
    have hreplies : replies (⟨.post "/v1/telemetry" sp.event, some r⟩ :: ⟨.add .exportErrors 1, ()⟩ ::
        ⟨.drop sp.id, ()⟩ :: ⟨.remove sp.path, ok⟩ :: (counts ++ tr)) = r :: replies tr :=
      congrArg (r :: ·) (replies_counts hcounts tr)
    rw [hreplies, List.forall_mem_cons, ← hrest]
    constructor
    · rintro ⟨⟨sp', -, -, r', heq, hverdict⟩, hw⟩
      obtain ⟨-, rfl⟩ := Prod.mk.inj (Option.some.inj heq)
      exact ⟨fun hm => not_verdict hm hverdict, (warranted_counts hcounts tr).mp hw⟩
    · rintro ⟨hm, hw⟩
      have hcontent : r.status = 422 := by
        by_contra hne
        exact hm ⟨hrefused.1, hrefused.2.1, hne, hrefused.2.2⟩
      exact ⟨⟨sp, hall sp List.mem_cons_self, rfl, r, rfl, .inr hcontent⟩,
        (warranted_counts hcounts tr).mpr hw⟩

theorem warranted_iff {batch : List Spooled} {tr : List Step} {b : Bool}
    (h : (sendPerEvent batch).Run tr (.ret b)) :
    Warranted batch none tr ↔ ∀ r ∈ replies tr, ¬ Mistaken r :=
  warranted_sent (sent_of_run batch h) batch none (fun _ hsp => hsp)

/-- On the other path an answer that is neither an acknowledgement nor a missing route leaves
everything where it is. -/
theorem batch_keeps {batch : List Spooled} {tr : List Step} {b : Bool}
    (h : (Telemetry.send batch).Run tr (.ret b)) (hbatch : ⟨.perEvent, true⟩ ∉ tr)
    (hother : ∀ r ∈ replies tr, r.status ≠ 200 ∧ r.status ≠ 404 ∧ r.status ≠ 405)
    (path : String) (ok : Bool) : ⟨.remove path, ok⟩ ∉ tr := by
  unfold Telemetry.send at h
  obtain ⟨single, ys, rfl, hsent⟩ := Prog.Run.of_call h
  cases single with
  | true => exact absurd List.mem_cons_self hbatch
  | false =>
    rw [if_neg Bool.false_ne_true] at hsent
    obtain ⟨a, zs, rfl, hanswered⟩ := Prog.Run.of_call hsent
    cases a with
    | none =>
      obtain ⟨x, rest, rfl, hcounted⟩ := Prog.Run.of_call hanswered
      obtain ⟨rfl, -⟩ := Prog.Run.of_ret hcounted
      simp
    | some r =>
      obtain ⟨h200, h404, h405⟩ := hother r (List.mem_cons_self)
      dsimp only at hanswered
      rw [if_neg (not_or.mpr ⟨h404, h405⟩), if_pos h200] at hanswered
      obtain ⟨x, rest, rfl, hcounted⟩ := Prog.Run.of_call hanswered
      obtain ⟨rfl, -⟩ := Prog.Run.of_ret hcounted
      simp

theorem ackID_response {s : String} (h : hexadecimal 32 s = true) :
    ackID (readLimited 8193 (jsonResponse 200 (.obj [("id", .str s)])).reply.body).1 = some s := by
  obtain ⟨hspelled, hlen⟩ := hexadecimal_plain h
  have hkey : ∀ c ∈ "id".toList, GoJson.PlainChar c := by decide
  have hover : Json.Over GoJson.PlainChar (.obj [("id", .str s)]) := ⟨⟨hkey, hspelled⟩, trivial⟩
  have hdepth : (Json.obj [("id", .str s)]).depth ≤ GoJson.maxNestingDepth := by
    simp [Json.depth, Json.depthFields, Json.depthField, GoJson.maxNestingDepth]
  have hbytes : (jsonResponse 200 (.obj [("id", .str s)])).body =
      utf8 (Json.plainText (.obj [("id", .str s)])) := by
    rw [jsonResponse, Json.print_verbatim _ (hover.mono (fun _ hc => Signer.escape_verbatim hc false))]
  have hshort : (jsonResponse 200 (.obj [("id", .str s)])).body.length ≤ 8193 := by
    have hid : ("id".toList).length = 2 := by decide
    rw [hbytes, utf8_length_ascii (Json.plain_ascii _ (hover.mono (fun _ hc => hc.ascii)))]
    simp only [Json.plainText, Json.print, Json.printFields, Json.printField, Json.printRest,
      List.length_append, List.length_cons, List.length_nil, Json.quote_length, hid, hlen]
    omega
  show ackID ((jsonResponse 200 (.obj [("id", .str s)])).body.take 8193) = _
  rw [List.take_of_length_le hshort, hbytes, ackID, GoJson.unmarshal, GoJson.scan_plain hover hdepth,
    Option.bind_some]
  simp +decide [GoJson.struct, GoJson.members, GoJson.findField, GoJson.field, GoJson.string]

/-- An event as one request brings it. -/
def single (b : Bytes) : Option Dict := (jsonLoads b).bind asDict

/-- What the control plane means by its answers: one that turns down the content is about an
event that is not acceptable, and what is acknowledged is stored. -/
theorem serve_single (v : Visit) (sp : Spooled) (t : TelemetryTable) :
    let answer := serveTelemetry v "/v1/telemetry" sp.event t
    (answer.1.status = 422 → (single sp.event).bind (acceptable v.now) = none ∧ answer.2 = t) ∧
      (acknowledges sp answer.1.reply = true → ∃ row ∈ answer.2.rows, row.id = sp.id) := by
  have hsilent : ∀ {n : Int} {msg : String}, n ≠ 200 →
      acknowledges sp (detail n msg).reply = true → ∃ row ∈ t.rows, row.id = sp.id :=
    fun h200 hack => absurd (acknowledges_status hack) h200
  have hcaller : ∀ {n : Int} {msg : String} {P : Prop}, n ≠ 422 → (detail n msg).status = 422 → P :=
    fun h422 hstatus => absurd hstatus h422
  unfold serveTelemetry
  rw [if_neg (by decide), if_pos rfl]
  unfold guarded
  split
  · exact ⟨hcaller (by decide), hsilent (by decide)⟩
  split
  · exact ⟨hcaller (by decide), hsilent (by decide)⟩
  split
  · rename_i hbody
    refine ⟨fun _ => ⟨?_, rfl⟩, hsilent (by decide)⟩
    rw [single, hbody]
    rfl
  rename_i raw hbody
  split
  · exact ⟨hcaller (by decide), hsilent (by decide)⟩
  rename_i role _
  have hsingle : single sp.event = asDict raw := by
    rw [single, hbody, Option.bind_some]
  rw [hsingle]
  dsimp only
  split
  · rename_i hshape
    refine ⟨fun _ => ⟨?_, rfl⟩, hsilent (by decide)⟩
    cases hdict : asDict raw with
    | none => rfl
    | some d =>
      rw [hdict, Option.bind_some] at hshape
      rw [Option.bind_some, acceptable, hshape]
      rfl
  rename_i ev hshape
  obtain ⟨d, hdict, hvalid⟩ := Option.bind_eq_some_iff.mp hshape
  unfold telemetry
  split
  · exact ⟨hcaller (by decide), hsilent (by decide)⟩
  split
  · rename_i huntimely
    refine ⟨fun _ => ⟨?_, rfl⟩, hsilent (by decide)⟩
    rw [hdict, Option.bind_some, acceptable, hvalid]
    simpa using huntimely
  · refine ⟨fun h => absurd h (by decide : (200 : Int) ≠ 422), fun hack => ?_⟩
    obtain ⟨row, hrow, hid⟩ := has_insert t ev
    refine ⟨row, hrow, hid.trans ?_⟩
    unfold acknowledges at hack
    dsimp only at hack
    rw [Bool.and_eq_true, beq_iff_eq, ackID_response (modelValidate_id hvalid).2] at hack
    exact Option.some.inj hack.2

/-- One event at a time. A run removes a file only on a verdict about its event if and only if
no answer is taken for a verdict that is none: one with a status from 400 to 499 other than 422
and 429. The batch path takes no such answer for a verdict. The control plane's own verdicts are
about the event. -/
theorem removed_on_verdict_iff (batch : List Spooled) :
    (∀ (tr : List Step) (b : Bool), (sendPerEvent batch).Run tr (.ret b) →
      (Warranted batch none tr ↔ ∀ r ∈ replies tr,
        ¬ (400 ≤ r.status ∧ r.status < 500 ∧ r.status ≠ 422 ∧ r.status ≠ 429))) ∧
    (∀ (tr : List Step) (b : Bool), (Telemetry.send batch).Run tr (.ret b) → ⟨.perEvent, true⟩ ∉ tr →
      (∀ r ∈ replies tr, r.status ≠ 200 ∧ r.status ≠ 404 ∧ r.status ≠ 405) →
      ∀ path ok, ⟨.remove path, ok⟩ ∉ tr) ∧
    ∀ (v : Visit) (sp : Spooled) (t : TelemetryTable),
      ((serveTelemetry v "/v1/telemetry" sp.event t).1.status = 422 →
        (single sp.event).bind (acceptable v.now) = none ∧
          (serveTelemetry v "/v1/telemetry" sp.event t).2 = t) ∧
      (acknowledges sp (serveTelemetry v "/v1/telemetry" sp.event t).1.reply = true →
        ∃ row ∈ (serveTelemetry v "/v1/telemetry" sp.event t).2.rows, row.id = sp.id) :=
  ⟨fun _ _ h => warranted_iff h, fun _ _ h hbatch hother => batch_keeps h hbatch hother,
    fun v sp t => serve_single v sp t⟩

def keptFile : Spooled :=
  ⟨keptEvent.id ++ ".json", keptEvent.id, keptEvent.bytes.length, keptEvent.bytes⟩

/-- One event is sent while the gateway's credential is as this visit has it. -/
@[irreducible] def sentBy (v : Visit) : Conf SpoolOp SpoolAns Exchange Unit Bool :=
  exchange.play (fun _ _ _ _ => true) (fun _ _ => true) 50
    [.go () (fun _ => false) (withFate (.served v))]
    (.start { spool := [(keptFile.path, keptFile.event)] } (fun _ => sendPerEvent [keptFile]))

theorem sentBy_reached (v : Visit) :
    exchange.machine.Reaches Machine.anyMove
      (.start { spool := [(keptFile.path, keptFile.event)] } (fun _ => sendPerEvent [keptFile]))
      (sentBy v) := by
  unfold sentBy
  exact Effect.Driver.play_reaches (fun _ _ _ _ _ => trivial) (fun _ _ _ => trivial) _ _ _

theorem sentBy_run {v : Visit} (h : ((sentBy v).prog ()).result = some true) :
    (sendPerEvent [keptFile]).Run ((sentBy v).log ()) (.ret true) := by
  have hrun := Machine.run_of_reaches (sentBy_reached v) ()
  rw [Prog.eq_ret_of_result h] at hrun
  exact hrun

theorem exists_reply {tr : List Step} {n : Int} (h : (replies tr).map Reply.status = [n]) :
    ∃ r ∈ replies tr, r.status = n :=
  List.mem_map.mp (h ▸ List.mem_singleton_self n)

theorem only_reply {tr : List Step} {n : Int} (h : (replies tr).map Reply.status = [n]) {r : Reply}
    (hr : r ∈ replies tr) : r.status = n :=
  List.mem_singleton.mp (h ▸ List.mem_map_of_mem hr)

/-- A credential that has expired: the event is removed and counted as dropped, and the
control plane has not stored it. -/
theorem expired_credential_removes :
    exchange.machine.Reaches Machine.anyMove
      (.start { spool := [(keptFile.path, keptFile.event)] } (fun _ => sendPerEvent [keptFile]))
      (sentBy { principal := none, now := 2 }) ∧
    (replies ((sentBy { principal := none, now := 2 }).log ())).map Reply.status = [401] ∧
    (sentBy { principal := none, now := 2 }).state.spool = [] ∧
    (sentBy { principal := none, now := 2 }).state.dropped = [keptEvent.id] ∧
    (sentBy { principal := none, now := 2 }).state.table.rows.map TelemetryRow.id = [] ∧
    ¬ Warranted [keptFile] none ((sentBy { principal := none, now := 2 }).log ()) := by
  have hplay : (replies ((sentBy { principal := none, now := 2 }).log ())).map Reply.status = [401] ∧
      (sentBy { principal := none, now := 2 }).state.spool = [] ∧
      (sentBy { principal := none, now := 2 }).state.dropped = [keptEvent.id] ∧
      (sentBy { principal := none, now := 2 }).state.table.rows.map TelemetryRow.id = [] ∧
      ((sentBy { principal := none, now := 2 }).prog ()).result = some true := by
    decide +kernel
  obtain ⟨hstatus, hspool, hdropped, hrows, hdone⟩ := hplay
  refine ⟨sentBy_reached _, hstatus, hspool, hdropped, hrows, fun hw => ?_⟩
  have hnone := (warranted_iff (sentBy_run hdone)).mp hw
  obtain ⟨r, hr, hcode⟩ := exists_reply hstatus
  refine hnone r hr ?_
  rw [Mistaken, hcode]
  decide

/-- A credential that is good: the event is removed on its acknowledgement. -/
theorem removed_on_verdict_iff_agent :
    (sendPerEvent [keptFile]).Run ((sentBy agentVisit).log ()) (.ret true) ∧
      (sentBy agentVisit).state.spool = [] ∧
      Warranted [keptFile] none ((sentBy agentVisit).log ()) := by
  have hplay : (replies ((sentBy agentVisit).log ())).map Reply.status = [200] ∧
      (sentBy agentVisit).state.spool = [] ∧ ((sentBy agentVisit).prog ()).result = some true := by
    decide +kernel
  obtain ⟨hstatus, hspool, hdone⟩ := hplay
  refine ⟨sentBy_run hdone, hspool, ?_⟩
  refine ((removed_on_verdict_iff [keptFile]).1 _ true (sentBy_run hdone)).mpr (fun r hr => ?_)
  rw [only_reply hstatus hr]
  decide

end Switchboard.Proofs.PerEvent
