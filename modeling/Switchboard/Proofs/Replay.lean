import Switchboard.Gateway.RawEntry
import Switchboard.Proofs.Shape

namespace Switchboard.Proofs.Replay
open Text Gateway Entry Outline
open Effect (Monitor Prog)
open Shape (chunkFrame doneFrame textOf)

theorem idemEntryJson_eq (e : IdemEntry) :
    idemEntryJson e = .obj (entryHead e ++ (responseField e.response ++ entryTail e)) := by
  simp [idemEntryJson, entryHead, entryTail]

theorem marshal_ne_nil {j : Json} (h : Json.Over (fun _ => True) j) : GoJson.marshal j ≠ [] := by
  intro hnil
  have hp := Json.parse_print (h.mono (fun c _ => GoJson.escape_faithful c))
  have hd := congrArg decodeUtf8 hnil
  rw [GoJson.marshal, decode_utf8] at hd
  rw [hd] at hp
  cases hp

/-- The members of an entry with their bytes. -/
def entryTexts (e : IdemEntry) (j : Json) : List (String × Bytes) :=
  (entryHead e).map (Json.rawOf GoJson.escape) ++ ("response", GoJson.marshal j) ::
    (entryTail e).map (Json.rawOf GoJson.escape)

theorem encodeEntry_eq {e : IdemEntry} {j : Json} (hj : e.response = some j) :
    encodeEntry e = Json.rawObject GoJson.escape (entryTexts e j) := by
  rw [encodeEntry, GoJson.marshal, idemEntryJson_eq, hj, ← Json.rawObject_print]
  simp [responseField, entryTexts, Json.rawOf, GoJson.marshal]

/-- The file of an entry is the one that its response, as it was sent, is written to. -/
theorem marshalEntry_sent {e : IdemEntry} {j : Json} (h : Storable e) (hj : e.response = some j) :
    marshalEntry { e with response := none } (GoJson.marshal j) = some (encodeEntry e) := by
  have hover := h.spelled j hj
  have hdepth := Nat.le_of_lt (h.depth j hj)
  rw [marshalEntry, if_neg (marshal_ne_nil hover), GoJson.compact_marshal hover hdepth, Option.map_some,
    encodeEntry_eq hj]
  rfl

theorem isResponse_names : isResponse "response" = true ∧
    ∀ name ∈ ["state", "body_hash", "stored_unix", "status", "stream", "text", "finish"],
      isResponse name = false := by
  decide

theorem head_not_response (e : IdemEntry) : ∀ f ∈ entryHead e, isResponse f.1 = false := by
  obtain ⟨-, hnames⟩ := isResponse_names
  intro f hf
  apply hnames
  unfold entryHead at hf
  split_ifs at hf <;> simp at hf <;> grind

theorem tail_not_response (e : IdemEntry) : ∀ f ∈ entryTail e, isResponse f.1 = false := by
  obtain ⟨-, hnames⟩ := isResponse_names
  intro f hf
  apply hnames
  unfold entryTail at hf
  split_ifs at hf <;> simp at hf <;> grind

/-- What is read back as the response of an entry is what was sent. -/
theorem rawResponse_encode {e : IdemEntry} {j : Json} (h : Storable e) (hj : e.response = some j) :
    rawResponse (encodeEntry e) = GoJson.marshal j := by
  have hover := over_entry h
  rw [idemEntryJson_eq, hj] at hover
  have hreadings := Json.readings_print (hover.mono (fun c _ => GoJson.escape_faithful c))
  have hplain : ∀ fs : List (String × Json), (∀ f ∈ fs, isResponse f.1 = false) →
      ∀ f ∈ fs.map (Json.rawOf GoJson.escape), isResponse f.1 = false := by
    intro fs hfs f hf
    obtain ⟨f', hf', rfl⟩ := List.mem_map.mp hf
    exact hfs f' hf'
  rw [encodeEntry_eq hj]
  apply GoJson.rawMessage_only
  · show List.Forall₂ _ _ (entryHead e ++ (responseField (some j) ++ entryTail e))
    simpa [responseField, Json.rawOf, GoJson.marshal] using hreadings
  · exact isResponse_names.1
  · exact hplain _ (head_not_response e)
  · exact hplain _ (tail_not_response e)

theorem unmarshalEntry_encode {e : IdemEntry} {j : Json} (h : Storable e) (hj : e.response = some j) :
    unmarshalEntry (encodeEntry e) = some ({ e with response := none }, GoJson.marshal j) := by
  rw [unmarshalEntry, decode_encode h, Option.map_some, rawResponse_encode h hj]

/-- What a request has asked the store, been given by it and told it, and what it has written to
its client. -/
structure Page where
  asked : Option (String × Bytes) := none
  prior : Option IdemEntry := none
  recorded : Option (String × IdemEntry) := none
  written : List Bytes := []

/-- The store's answer is an entry to replay. -/
def priorOf : Except StoreError (Option IdemEntry) → Option IdemEntry
  | .ok e => e
  | .error _ => none

/-- A request asks the store once and records at most one outcome. -/
def pages : Monitor Op Ans Page where
  may _ _ _ := True
  ok
    | g, .beginKey _ _ => g.asked = none
    | g, .finishKey _ _ => g.recorded = none
    | _, _ => True
  next
    | g, .beginKey key body, x => { g with asked := some (key, body), prior := priorOf x }
    | g, .finishKey key e, _ => { g with recorded := some (key, e) }
    | g, .write b, _ => { g with written := g.written ++ [b] }
    | g, _, _ => g

/-- What is on the page after the operations of a run. -/
def pageOf (log : List (Effect.Event Op Ans)) : Page := pages.after {} log

section
variable {g : Page}

@[simp] theorem wp_map {f : α → β} {p : M α} {Q : β → Page → Prop} :
    pages.wp Q (f <$> p) g ↔ pages.wp (fun a g => Q (f a) g) p g := by
  simp [Prog.map_def]

@[simp] theorem wp_beginKey {key : String} {body : Bytes}
    {Q : Except StoreError (Option IdemEntry) → Page → Prop} :
    pages.wp Q (beginKey key body) g ↔
      g.asked = none ∧ ∀ x, Q x { g with asked := some (key, body), prior := priorOf x } :=
  Monitor.wp_guarded (fun _ => trivial)

@[simp] theorem wp_finishKey {key : String} {e : IdemEntry} {Q : Unit → Page → Prop} :
    pages.wp Q (finishKey key e) g ↔ g.recorded = none ∧ Q () { g with recorded := some (key, e) } :=
  (Monitor.wp_guarded (fun _ => trivial)).trans
    (and_congr_right fun _ => ⟨fun h => h (), fun h _ => h⟩)

@[simp] theorem wp_write {b : Bytes} {Q : Bool → Page → Prop} :
    pages.wp Q (write b) g ↔ ∀ ok, Q ok { g with written := g.written ++ [b] } :=
  Monitor.wp_known trivial (fun _ => trivial)

@[simp] theorem wp_now {Q : Int → Page → Prop} : pages.wp Q now g ↔ ∀ t, Q t g :=
  Monitor.wp_neutral trivial (fun _ => trivial) (fun _ => rfl)

@[simp] theorem wp_currentPolicy {Q : Option Policy → Page → Prop} :
    pages.wp Q currentPolicy g ↔ ∀ p, Q p g :=
  Monitor.wp_neutral trivial (fun _ => trivial) (fun _ => rfl)

@[simp] theorem wp_ask {o : Ask} {Q : Bool → Page → Prop} : pages.wp Q (ask o) g ↔ ∀ b, Q b g :=
  Monitor.wp_neutral trivial (fun _ => trivial) (fun _ => rfl)

@[simp] theorem wp_tell {o : Tell} {Q : Unit → Page → Prop} : pages.wp Q (tell o) g ↔ Q () g :=
  (Monitor.wp_neutral trivial (fun _ => trivial) (fun _ => rfl)).trans ⟨fun h => h (), fun h _ => h⟩

@[simp] theorem wp_tellIf {b : Bool} {o : Tell} {Q : Unit → Page → Prop} :
    pages.wp Q (tellIf b o) g ↔ Q () g := by
  cases b with
  | true => exact wp_tell
  | false => exact Iff.rfl

@[simp] theorem wp_allow {p : String} {Q : Bool → Page → Prop} :
    pages.wp Q (allow p) g ↔ ∀ b, Q b g :=
  Monitor.wp_neutral trivial (fun _ => trivial) (fun _ => rfl)

@[simp] theorem wp_settle {p : String} {s : Settlement} {Q : Unit → Page → Prop} :
    pages.wp Q (settle p s) g ↔ Q () g :=
  (Monitor.wp_neutral trivial (fun _ => trivial) (fun _ => rfl)).trans ⟨fun h => h (), fun h _ => h⟩

@[simp] theorem wp_releaseKey {key : String} {Q : Unit → Page → Prop} :
    pages.wp Q (releaseKey key) g ↔ Q () g :=
  (Monitor.wp_neutral trivial (fun _ => trivial) (fun _ => rfl)).trans ⟨fun h => h (), fun h _ => h⟩

@[simp] theorem wp_setHeader {name value : String} {Q : Unit → Page → Prop} :
    pages.wp Q (setHeader name value) g ↔ Q () g :=
  (Monitor.wp_neutral trivial (fun _ => trivial) (fun _ => rfl)).trans ⟨fun h => h (), fun h _ => h⟩

@[simp] theorem wp_delHeader {name : String} {Q : Unit → Page → Prop} :
    pages.wp Q (delHeader name) g ↔ Q () g :=
  (Monitor.wp_neutral trivial (fun _ => trivial) (fun _ => rfl)).trans ⟨fun h => h (), fun h _ => h⟩

@[simp] theorem wp_writeHeader {status : Int} {Q : Unit → Page → Prop} :
    pages.wp Q (writeHeader status) g ↔ Q () g :=
  (Monitor.wp_neutral trivial (fun _ => trivial) (fun _ => rfl)).trans ⟨fun h => h (), fun h _ => h⟩

@[simp] theorem wp_send {u : Upstream} {Q : Outcome → Page → Prop} :
    pages.wp Q (send u) g ↔ ∀ o, Q o g :=
  Monitor.wp_neutral trivial (fun _ => trivial) (fun _ => rfl)

theorem wp_fail {event : Event} {settled : Bool} {status : Int} {msg : String} {Q : Ended → Page → Prop} :
    pages.wp Q (fail event settled status msg) g ↔
      Q { event := { event with status := status }, settled := settled }
        { g with written := g.written ++ [GoJson.marshal (problemJson status msg)] } := by
  simp [fail, problem]

end

/-- The finish reasons among the chunks of a stream. -/
def finishes (chunks : List Normalized) : List String :=
  (chunks.map Normalized.finish).filter (· ≠ "")

def lastFinish (chunks : List Normalized) : String := (finishes chunks).getLastD ""

theorem finishes_append (ms ns : List Normalized) :
    finishes (ms ++ ns) = finishes ms ++ finishes ns := by
  simp [finishes]

theorem lastFinish_snoc (chunks : List Normalized) (n : Normalized) :
    lastFinish (chunks ++ [n]) = if n.finish ≠ "" then n.finish else lastFinish chunks := by
  rw [lastFinish, finishes_append]
  by_cases hn : n.finish = ""
  · simp [finishes, hn, lastFinish]
  · simp [finishes, hn]

/-- What a relay that has lost nothing remembers of the chunks it has sent. -/
structure Noted (k : Inference) (route : Route) (st : StreamState) (chunks : List Normalized)
    (written : List Bytes) : Prop where
  sent : written = chunks.map (chunkFrame k route)
  text : st.out.text = textOf chunks
  finish : st.out.finish = lastFinish chunks
  quiet : st.wrote = false → chunks = []
  held : st.pending ≠ none → st.finished = true ∧ (st.wrote = true → finishes chunks ≠ [])
  pending : ∀ ch, st.pending = some ch →
    ∃ n, ch = chunk k.id route n (unix k.start) ∧ n.text = "" ∧ n.finish ≠ ""

/-- What the relay leaves of a page: everything but what was written. -/
def Page.write (g : Page) (bs : List Bytes) : Page := { g with written := g.written ++ bs }

section
variable {k : Inference} {route : Route} {g : Page}

/-- What handling events leaves: unless it stopped with an error, the chunks sent are noted. -/
def Carried (k : Inference) (route : Route) (g : Page) (r : StreamState × Option StreamStop)
    (g' : Page) : Prop :=
  ∃ bs, g' = g.write bs ∧
    ((∀ e, r.2 ≠ some (.error e)) → ∃ chunks, Noted k route r.1 chunks bs)

theorem Noted.carried {st' : StreamState} {chunks : List Normalized} {bs : List Bytes}
    {stop : Option StreamStop} (h : Noted k route st' chunks bs) :
    Carried k route g (st', stop) (g.write bs) :=
  ⟨bs, rfl, fun _ => ⟨chunks, h⟩⟩

theorem carried_error {st : StreamState} {e : StreamError} {bs : List Bytes} :
    Carried k route g (st, some (.error e)) (g.write bs) :=
  ⟨bs, rfl, fun h => absurd rfl (h e)⟩

theorem Page.write_write (g : Page) (bs : List Bytes) (b : Bytes) :
    ({ g.write bs with written := (g.write bs).written ++ [b] } : Page) = g.write (bs ++ [b]) := by
  simp [Page.write]

theorem emitFrame_noted {st st' : StreamState} {n : Normalized} {done : Bool}
    {chunks : List Normalized} {bs : List Bytes} (h : Noted k route st chunks bs)
    (htext : st'.out.text = st.out.text) (hfinish : st'.out.finish = st.out.finish)
    (hwrote : st'.wrote = st.wrote) (hpending : st'.pending = st.pending)
    (hfinished : st'.finished = (st.finished || n.finish != ""))
    (hlate : st.finished = true → n.text = "") :
    pages.wp (Carried k route g) (emitFrame k route st' n done) (g.write bs) := by
  have hkept : st'.pending ≠ none → st'.finished = true ∧ (st'.wrote = true → finishes chunks ≠ []) := by
    intro hp
    obtain ⟨hfin, hw⟩ := h.held (fun hnone => hp (hpending.trans hnone))
    exact ⟨by simp [hfinished, hfin], fun hwrote' => hw (hwrote ▸ hwrote')⟩
  unfold emitFrame
  split
  · rename_i hsome
    dsimp only
    split
    · rename_i hheld
      obtain ⟨hw, ht, hf⟩ := hheld
      refine Noted.carried ⟨h.sent, htext.trans h.text, hfinish.trans h.finish,
        fun _ => h.quiet (hwrote.symm.trans hw), fun _ => ⟨?_, fun hw' => ?_⟩, ?_⟩
      · simp [hfinished, hf]
      · exact absurd (hw.symm.trans hw') (by decide)
      · intro ch hch
        cases hch
        exact ⟨n, rfl, ht, by simp [hf]⟩
    · simp only [Monitor.wp_bind_iff, wp_write]
      intro ok
      rw [Page.write_write]
      cases ok with
      | false => exact carried_error
      | true =>
        suffices hnoted : Noted k route (st'.noteChunk n) (chunks ++ [n]) (bs ++ [chunkFrame k route n]) from
          hnoted.carried
        refine ⟨?_, ?_, ?_, fun hw => ?_, fun hp => ?_, ?_⟩
        · rw [h.sent, List.map_append]
          rfl
        · rw [Shape.textOf_append, ← h.text, ← htext]
          simp [StreamState.noteChunk, textOf]
        · rw [lastFinish_snoc, ← h.finish, ← hfinish]
          rfl
        · cases hw
        · refine ⟨(hkept hp).1, fun _ => ?_⟩
          rw [finishes_append]
          cases hw : st.wrote with
          | true =>
            have hne := (hkept hp).2 (hwrote.trans hw)
            simp [hne]
          | false =>
            -- a chunk that is sent after one was held back has no text, so it has a finish
            have hfin := (h.held (fun hnone => hp (hpending.trans hnone))).1
            have hn : n.finish ≠ "" := hsome.resolve_left (fun ht => ht (hlate hfin))
            simp [finishes, hn]
        · exact fun ch hch => h.pending ch (hpending.symm.trans hch)
  · exact Noted.carried ⟨h.sent, htext.trans h.text, hfinish.trans h.finish,
      fun hw => h.quiet (hwrote.symm.trans hw), hkept,
      fun ch hch => h.pending ch (hpending.symm.trans hch)⟩

theorem onEvent_noted {st : StreamState} {chunks : List Normalized} {bs : List Bytes}
    (h : Noted k route st chunks bs) (b : Bytes) :
    pages.wp (Carried k route g) (onEvent k route st b) (g.write bs) := by
  unfold onEvent
  split
  · split
    · exact carried_error
    · exact h.carried
  · dsimp only
    split
    · exact carried_error
    · rw [Monitor.wp_bind_iff, wp_tellIf]
      split
      · exact carried_error
      · rename_i hlate
        simp only [not_and, not_not] at hlate
        exact emitFrame_noted h (Shape.noteFrame_text st _) (Shape.noteFrame_finish st _) rfl rfl rfl hlate

theorem onEvents_noted (events : List Bytes) {st : StreamState} {chunks : List Normalized}
    {bs : List Bytes} (h : Noted k route st chunks bs) :
    pages.wp (Carried k route g) (onEvents k route st events) (g.write bs) := by
  induction events generalizing st chunks bs with
  | nil => exact h.carried
  | cons b events ih =>
    refine Monitor.wp_seq (onEvent_noted h b) ?_
    rintro ⟨st', stop⟩ g' ⟨bs', rfl, hnoted⟩
    cases stop with
    | some stop => exact ⟨bs', rfl, hnoted⟩
    | none =>
      obtain ⟨chunks', h'⟩ := hnoted (fun e he => by cases he)
      exact ih h'

/-- What a stream leaves on the page: a complete one has sent chunks and the end of the stream, and
remembers their text and their finish. -/
structure Streamed (k : Inference) (route : Route) (g : Page) (r : StreamResult × StreamEnd)
    (g' : Page) : Prop where
  others : ∃ bs, g' = g.write bs
  empty : r.2 = .empty → g' = g
  complete : r.2 = .complete → ∃ chunks,
    g' = g.write (chunks.map (chunkFrame k route) ++ [doneFrame]) ∧ r.1.text = textOf chunks ∧
      ∀ f, finishes chunks = [f] → r.1.finish = f

theorem streamed_failed {out : StreamResult} {e : StreamError} {bs : List Bytes} :
    Streamed k route g (out, .failed e) (g.write bs) :=
  ⟨⟨bs, rfl⟩, (fun h => by cases h), (fun h => by cases h)⟩

theorem sendDone_streamed {st : StreamState} (chunks : List Normalized) {bs : List Bytes}
    (hsent : bs = chunks.map (chunkFrame k route)) (htext : st.out.text = textOf chunks)
    (hfinish : ∀ f, finishes chunks = [f] → st.out.finish = f) :
    pages.wp (Streamed k route g) (sendDone st) (g.write bs) := by
  unfold sendDone
  simp only [Monitor.wp_bind_iff, wp_write]
  intro ok
  rw [Page.write_write]
  cases ok with
  | false => exact streamed_failed
  | true =>
    refine ⟨⟨_, rfl⟩, (fun h => by cases h), fun _ => ⟨chunks, ?_, htext, hfinish⟩⟩
    rw [hsent]
    rfl

theorem closeStream_streamed {st : StreamState} {chunks : List Normalized} {bs : List Bytes}
    (h : Noted k route st chunks bs) :
    pages.wp (Streamed k route g) (closeStream st) (g.write bs) := by
  unfold closeStream
  split
  · refine sendDone_streamed chunks h.sent h.text (fun f hf => ?_)
    rw [h.finish, lastFinish, hf]
    rfl
  · rename_i ch hch
    split
    · rename_i hw
      obtain rfl := h.quiet hw
      have hbs : bs = [] := h.sent
      refine ⟨⟨bs, rfl⟩, fun _ => ?_, (fun h => by cases h)⟩
      rw [hbs, Page.write, List.append_nil]
    · rename_i hw
      simp only [Monitor.wp_bind_iff, wp_write]
      intro ok
      rw [Page.write_write]
      cases ok with
      | false => exact streamed_failed
      | true =>
        obtain ⟨n, rfl, ht, hn⟩ := h.pending ch hch
        refine sendDone_streamed (chunks ++ [n]) ?_ ?_ (fun f hf => ?_)
        · rw [h.sent, List.map_append]
          rfl
        · rw [h.text, Shape.textOf_append]
          simp [textOf, ht]
        · -- the chunk that was held back is a second finish
          have hne := (h.held (by simp [hch])).2 (by simpa using hw)
          have hlen := congrArg List.length hf
          have hone : finishes [n] = [n.finish] := by simp [finishes, hn]
          rw [finishes_append, hone, List.length_append, List.length_singleton] at hlen
          have hpos := List.length_pos_of_ne_nil hne
          simp only [List.length_singleton] at hlen
          omega

theorem interrupted_streamed {st : StreamState} {e : StreamError} {bs : List Bytes} :
    pages.wp (Streamed k route g) (interrupted k st e) (g.write bs) := by
  unfold interrupted
  simp only [Monitor.wp_bind_iff, wp_write]
  intro ok
  rw [Page.write_write]
  exact streamed_failed

theorem stream_streamed (contentType : String) (body : Body) :
    pages.wp (Streamed k route g) (stream k route contentType body) g := by
  unfold stream
  split
  · simp only [problem, Monitor.wp_bind_iff, wp_delHeader, wp_setHeader, wp_writeHeader, wp_write]
    exact fun _ => streamed_failed
  · unfold relay
    rw [Monitor.wp_bind_iff, wp_setHeader, Monitor.wp_bind_iff, wp_setHeader, Monitor.wp_bind_iff,
      wp_setHeader]
    have hstart : Noted k route {} [] [] :=
      ⟨rfl, rfl, rfl, fun _ => rfl, fun h => absurd rfl h, fun ch hch => by cases hch⟩
    have hg : g = g.write [] := by simp [Page.write]
    rw [hg]
    refine Monitor.wp_seq (onEvents_noted (g := g) _ hstart) ?_
    rintro ⟨st, stop⟩ g' ⟨bs, rfl, hnoted⟩
    have hsame : g.write [] = g := hg.symm
    rw [hsame]
    rcases stop with _ | _ | e
    · exact interrupted_streamed
    · obtain ⟨chunks, h⟩ := hnoted (fun e he => by cases he)
      exact closeStream_streamed h
    · exact interrupted_streamed

end

/-- What a request that recorded `e` has written to its client. -/
inductive Told (e : IdemEntry) : List Bytes → Prop
  | whole {id : String} {route : Route} {n : Normalized} {created : Int} (stream : e.stream = false)
      (response : e.response = some (completion id route n created)) :
      Told e [GoJson.marshal (completion id route n created)]
  | stream {k : Inference} {route : Route} {chunks : List Normalized} (stream : e.stream = true)
      (response : e.response = none) (text : e.text = textOf chunks)
      (finish : ∀ f, finishes chunks = [f] → e.finish = f) :
      Told e (chunks.map (chunkFrame k route) ++ [doneFrame])

/-- An answer that was recorded for the key the store was asked about. -/
structure Recorded (srv : Server) (g : Page) (key : String) (e : IdemEntry) : Prop where
  asked : ∃ body, g.asked = some (key, body) ∧ e.bodyHash = IdemStore.hashBody srv.lib.sha256 body
  status : e.status = 200
  stored : GoJson.inInt64 e.stored = true
  told : Told e g.written

/-- A request that is being routed. -/
structure Open (k : Inference) (g : Page) : Prop where
  asked : k.key ≠ "" → g.asked = some (k.key, k.body)
  recorded : g.recorded = none
  written : g.written = []

/-- A request whose routing is over. -/
structure Closed (srv : Server) (g g' : Page) : Prop where
  asked : g'.asked = g.asked
  prior : g'.prior = g.prior
  recorded : ∀ key e, g'.recorded = some (key, e) → e.state = .done → Recorded srv g' key e

def After (k : Inference) (g : Page) : Flow → Page → Prop
  | .next _, g' => g' = g
  | .stop _, g' => g' = g
  | .done _, g' => Closed k.srv g g'

section
variable {k : Inference} {route : Route} {st : Loop} {g g' : Page}

/-- No answer was recorded, whatever was written. -/
structure Unsettled (g g' : Page) : Prop where
  asked : g'.asked = g.asked
  prior : g'.prior = g.prior
  recorded : ∀ key e, g'.recorded = some (key, e) → e.state ≠ .done

theorem Unsettled.write (h : Unsettled g g') (bs : List Bytes) : Unsettled g (g'.write bs) :=
  ⟨h.asked, h.prior, h.recorded⟩

theorem Unsettled.closed (h : Unsettled g g') (srv : Server) : Closed srv g g' :=
  ⟨h.asked, h.prior, fun key e he hd => absurd hd (h.recorded key e he)⟩

theorem Open.unsettled (h : Open k g) : Unsettled g g := by
  refine ⟨rfl, rfl, fun key e he => ?_⟩
  cases h.recorded.symm.trans he

theorem Unsettled.fail (h : Unsettled g g') {event : Event} {settled : Bool} {status : Int}
    {msg : String} : pages.wp (After k g) (FlowOf.done <$> fail event settled status msg) g' := by
  rw [wp_map, wp_fail]
  exact (h.write [_]).closed k.srv

/-- The outcome is recorded as unknown, if there is a key. -/
theorem settleUnknown_spec (h : Open k g) (bs : List Bytes) :
    pages.wp (fun _ g' => Unsettled g g') (settleUnknown k) (g.write bs) := by
  unfold settleUnknown
  split
  · exact h.unsettled.write bs
  · simp only [Monitor.wp_bind_iff, wp_now, wp_finishKey]
    refine fun t => ⟨h.recorded, rfl, rfl, fun key e he => ?_⟩
    cases he
    exact fun hd => by cases hd

/-- The answer is recorded, if there is a key, and `more` is written after that. -/
theorem settleDone_spec (h : Open k g) {e : IdemEntry} {bs : List Bytes} (more : List Bytes)
    (ht : ∀ e' : IdemEntry, e'.stream = e.stream → e'.response = e.response → e'.text = e.text →
      e'.finish = e.finish → Told e' (bs ++ more)) :
    pages.wp (fun _ g' => Closed k.srv g (g'.write more)) (settleDone k e) (g.write bs) := by
  unfold settleDone
  split
  · exact ((h.unsettled.write bs).write more).closed k.srv
  · rename_i hkey
    simp only [Monitor.wp_bind_iff, wp_now, wp_finishKey]
    refine fun t => ⟨h.recorded, rfl, rfl, fun key e' he _ => ?_⟩
    cases he
    refine ⟨⟨k.body, h.asked hkey, rfl⟩, rfl, inInt64_wrap64 _, ?_⟩
    have hwritten : (g.write bs).written ++ more = bs ++ more := by
      rw [Page.write, h.written, List.nil_append]
    rw [show ∀ g : Page, (g.write more).written = g.written ++ more from fun _ => rfl, hwritten]
    exact ht _ rfl rfl rfl rfl

theorem wp_observeBudget {finish text : String} {Q : Unit → Page → Prop} :
    pages.wp Q (observeBudget k route finish text) g ↔ Q () g := by
  unfold observeBudget
  split
  · exact Iff.rfl
  · exact wp_tell

theorem emptyAnswer_after (n : Int) : pages.wp (After k g) (emptyAnswer k route st n) g := by
  simp only [emptyAnswer, Monitor.wp_bind_iff, wp_tell]
  rfl

theorem acceptStream_after (h : Open k g) {contentType : String} {body : Body} :
    pages.wp (After k g) (acceptStream k route st contentType body) g := by
  refine Monitor.wp_seq (stream_streamed contentType body) ?_
  rintro ⟨out, stop⟩ g' hs
  cases stop with
  | empty =>
    obtain rfl := hs.empty rfl
    simp only [Monitor.wp_bind_iff, wp_settle]
    exact emptyAnswer_after 0
  | failed e =>
    obtain ⟨bs, rfl⟩ := hs.others
    simp only [Monitor.wp_bind_iff, wp_settle]
    exact Monitor.wp_mono (settleUnknown_spec h bs) (fun _ _ hu => hu.closed k.srv)
  | complete =>
    obtain ⟨chunks, rfl, htext, hfinish⟩ := hs.complete rfl
    simp only [Monitor.wp_bind_iff, wp_settle, wp_observeBudget, wp_tellIf]
    refine Monitor.wp_mono (settleDone_spec h [] (fun e' hs hr ht hf => ?_)) ?_
    · rw [List.append_nil]
      exact .stream hs hr (ht.trans htext) (fun f hone => hf.trans (hfinish f hone))
    · intro settled g' hc
      simpa [After, Page.write] using hc

theorem answer_after (h : Open k g) (n : Normalized) :
    pages.wp (After k g) (answer k route st n) g := by
  unfold answer
  simp only [Monitor.wp_bind_iff, wp_observeBudget, wp_tellIf]
  have hg : g = g.write [] := by simp [Page.write]
  rw [hg]
  refine Monitor.wp_mono (settleDone_spec h [GoJson.marshal (completion k.id route n (unix k.start))]
    (fun e' hs hr _ _ => .whole hs hr)) ?_
  intro settled g' hc
  simp only [wp_setHeader, wp_write]
  intro ok
  rw [← hg]
  exact hc

theorem acceptWhole_after (h : Open k g) {body : Body} :
    pages.wp (After k g) (acceptWhole k route st body) g := by
  have hunknown : ∀ event status msg, pages.wp (After k g)
      (settleUnknown k >>= fun settled => FlowOf.done <$> fail event settled status msg) g := by
    intro event status msg
    have hspec := settleUnknown_spec h []
    rw [Page.write, List.append_nil] at hspec
    exact Monitor.wp_seq hspec (fun _ _ hu => hu.fail)
  unfold acceptWhole
  split
  · rw [Monitor.wp_bind_iff, wp_settle]
    exact hunknown _ _ _
  · dsimp only
    rw [Monitor.wp_bind_iff, wp_tellIf, Monitor.wp_bind_iff, wp_settle]
    split
    · exact hunknown _ _ _
    · split
      · exact emptyAnswer_after _
      · exact answer_after h _

theorem accepted_after (h : Open k g) {contentType : String} {body : Body} :
    pages.wp (After k g) (accepted k route st contentType body) g := by
  unfold accepted
  rw [Monitor.wp_bind_iff, wp_tell, Monitor.wp_bind_iff, wp_setHeader, Monitor.wp_bind_iff,
    wp_setHeader]
  split
  · exact acceptStream_after h
  · exact acceptWhole_after h

/-- The same route again, where that is possible. -/
def Continues (k : Inference) (g : Page) : Option (Loop → M Flow) → Prop
  | none => True
  | some again => ∀ st, pages.wp (After k g) (again st) g

variable {again : Option (Loop → M Flow)}

theorem leaveAlone_after {delay : Int} :
    pages.wp (After k g) (rateLimited.leaveAlone route st delay) g := by
  unfold rateLimited.leaveAlone
  split
  · rw [Monitor.wp_bind_iff, wp_settle]
    rfl
  · rw [Monitor.wp_bind_iff, wp_settle]
    rfl

theorem rateLimited_after (h : Open k g) (hagain : Continues k g again) {delay : Int} :
    pages.wp (After k g) (rateLimited k route again st delay) g := by
  unfold rateLimited
  rw [Monitor.wp_bind_iff, wp_tell]
  cases again with
  | none => exact leaveAlone_after
  | some again =>
    dsimp only
    split
    · simp only [Monitor.wp_bind_iff, wp_settle, wp_tell, wp_ask]
      intro passed
      split
      · exact hagain st
      · exact h.unsettled.fail
    · exact leaveAlone_after

theorem refused_after (h : Open k g) (hagain : Continues k g again) {status : Int} {header : String}
    {body : Body} : pages.wp (After k g) (refused k route again st status header body) g := by
  unfold refused
  rw [Monitor.wp_bind_iff, wp_now]
  intro t
  dsimp only
  split
  · simp only [Monitor.wp_bind_iff, wp_tell, wp_settle]
    rfl
  · exact rateLimited_after h hagain
  · simp only [Monitor.wp_bind_iff, wp_tell, wp_settle]
    split
    · rw [Monitor.wp_bind_iff, wp_settle]
      rfl
    · rfl
  · simp only [Monitor.wp_bind_iff, wp_tell, wp_settle]
    rfl
  · unfold terminal
    split
    · rw [Monitor.wp_bind_iff, wp_settle]
      exact h.unsettled.fail
    · rw [Monitor.wp_bind_iff, wp_settle]
      exact h.unsettled.fail

theorem conclude_after (h : Open k g) (hagain : Continues k g again) (o : Outcome) :
    pages.wp (After k g) (conclude k route again st o) g := by
  cases o with
  | failed =>
    have hspec := settleUnknown_spec h []
    rw [Page.write, List.append_nil] at hspec
    unfold conclude
    rw [Monitor.wp_bind_iff, wp_ask]
    intro gone
    split
    · rw [Monitor.wp_bind_iff, wp_settle]
      exact Monitor.wp_seq hspec (fun _ _ hu => hu.fail)
    · rw [Monitor.wp_bind_iff, wp_settle]
      exact Monitor.wp_seq hspec (fun _ _ hu => hu.fail)
  | response status header contentType body =>
    rw [conclude]
    split
    · exact refused_after h hagain
    · exact accepted_after h

/-- What is neither written nor said to the store is of no interest here. -/
@[simp] def Unwritten : Op → Prop
  | .beginKey _ _ | .finishKey _ _ | .write _ => False
  | _ => True

theorem pages_ignores (o : Op) (h : Unwritten o) : pages.Ignored o := by
  cases o with
  | beginKey key b => cases h
  | finishKey key e => cases h
  | write b => cases h
  | _ => exact fun _ => ⟨trivial, fun _ => rfl⟩

theorem wp_upstream {srv : Server} {c : Chat} {pc : ProviderConfig} {Q : Option Upstream → Page → Prop}
    (h : ∀ u, Q u g) : pages.wp Q (upstream srv c route pc) g :=
  (does_upstream (fun u => pages_ignores (.sign u) trivial)).wp_ignored (fun u _ => h u)

theorem adapterFailed_after (h : Open k g) : pages.wp (After k g) (adapterFailed route st) g := by
  unfold adapterFailed
  rw [Monitor.wp_bind_iff, wp_settle]
  exact h.unsettled.fail

theorem exchange_after (h : Open k g) (hagain : Continues k g again) {pc : ProviderConfig} (sent : Chat) :
    pages.wp (After k g) (exchange k route pc again st sent) g := by
  unfold exchange
  rw [Monitor.wp_bind_iff]
  refine wp_upstream (fun u => ?_)
  cases u with
  | none => exact adapterFailed_after h
  | some u =>
    dsimp only
    rw [Monitor.wp_bind_iff, wp_send]
    intro o
    split
    · rw [Monitor.wp_bind_iff, wp_tell, Monitor.wp_bind_iff, wp_tell, Monitor.wp_bind_iff]
      refine wp_upstream (fun u => ?_)
      cases u with
      | none => exact adapterFailed_after h
      | some u =>
        dsimp only
        rw [Monitor.wp_bind_iff, wp_send]
        exact fun o => conclude_after h hagain o
    · exact conclude_after h hagain o

theorem pace_after (h : Open k g) :
    pages.wp (fun flow g' => match flow with
      | none => g' = g
      | some flow => After k g flow g') (pace route st) g := by
  unfold pace
  split
  · rfl
  · rw [Monitor.wp_bind_iff, wp_ask]
    intro granted
    split
    · simp only [Monitor.wp_bind_iff, wp_tell, wp_now, wp_ask]
      intro t passed
      split
      · rfl
      · rw [Monitor.wp_bind_iff, wp_settle, wp_map, wp_fail]
        exact (h.unsettled.write [_]).closed k.srv
    · rw [Monitor.wp_bind_iff, wp_settle]
      rfl

theorem attempt_after (h : Open k g) (hagain : Continues k g again) {pc : ProviderConfig} :
    pages.wp (After k g) (attempt k route pc again st) g := by
  unfold attempt
  split
  · rfl
  split
  · rfl
  rw [Monitor.wp_bind_iff, wp_allow]
  intro allowed
  split
  · refine Monitor.wp_seq (pace_after h) ?_
    intro flow g' hflow
    cases flow with
    | some flow => exact hflow
    | none =>
      obtain rfl : g' = g := hflow
      dsimp only
      rw [Monitor.wp_bind_iff]
      have hprepare : (prepare k route).Does pages.Ignored _ := does_prepare.relax (fun o ho =>
        pages_ignores o (by cases o <;> first | trivial | cases ho))
      exact hprepare.wp_ignored (fun sent _ => exchange_after h hagain sent)
  · rfl

theorem visit_after (h : Open k g) {skip : Bool} : pages.wp (After k g) (visit k route skip st) g := by
  unfold visit turn
  split
  · rfl
  · split
    · rw [Monitor.wp_bind_iff, wp_tell]
      rfl
    · rename_i pc _ _
      have honce : Continues k g none := trivial
      have hagain : Continues k g (some (attempt k route pc none)) := fun st => attempt_after h honce
      exact attempt_after h hagain

theorem exhausted_closed (h : Open k g) :
    pages.wp (fun _ g' => Closed k.srv g g') (exhausted k st) g := by
  unfold exhausted
  rw [Monitor.wp_bind_iff, wp_setHeader]
  split
  · rw [Monitor.wp_bind_iff, wp_tell, wp_fail]
    exact (h.unsettled.write [_]).closed k.srv
  · rw [wp_fail]
    exact (h.unsettled.write [_]).closed k.srv

theorem routeLoop_closed (h : Open k g) (routes : List (Route × Bool)) (st : Loop) :
    pages.wp (fun _ g' => Closed k.srv g g') (routeLoop k routes st) g := by
  induction routes generalizing st with
  | nil => exact exhausted_closed h
  | cons r routes ih =>
    obtain ⟨route, skip⟩ := r
    refine Monitor.wp_seq (visit_after h) ?_
    intro flow g' hflow
    cases flow with
    | next st' =>
      obtain rfl : g' = g := hflow
      exact ih st'
    | stop st' =>
      obtain rfl : g' = g := hflow
      exact exhausted_closed h
    | done e => exact hflow
    | again a => cases a

end

/-- What a replay of `e` writes to its client. -/
def Replayed (e : IdemEntry) (written : List Bytes) : Prop :=
  if e.stream = true then
    ∃ id created, written =
      [sseFrame (chunk id {} { text := e.text, finish := e.finish } created), doneFrame]
  else written = [(e.response.map GoJson.marshal).getD []]

/-- A request that is over: it has replayed the entry it was given, or recorded at most its own
answer. -/
structure Over (srv : Server) (status : Int) (g : Page) : Prop where
  recorded : ∀ key e, g.recorded = some (key, e) → e.state = .done → Recorded srv g key e
  replayed : ∀ e, g.prior = some e → status = e.status ∧ Replayed e g.written

/-- A request that has not asked the store and has written nothing. -/
structure Unasked (g : Page) : Prop where
  asked : g.asked = none
  prior : g.prior = none
  recorded : g.recorded = none
  written : g.written = []

section
variable {k : Inference} {g : Page}

theorem Closed.over {srv : Server} {status : Int} {g' : Page} (h : Closed srv g g') (hp : g.prior = none) :
    Over srv status g' := by
  refine ⟨h.recorded, fun e he => ?_⟩
  rw [h.prior, hp] at he
  cases he

theorem Unasked.fail (h : Unasked g) (srv : Server) {event : Event} {settled : Bool} {status : Int}
    {msg : String} :
    pages.wp (fun e g' => Over srv e.event.status g') (fail event settled status msg) g := by
  rw [wp_fail]
  refine ⟨fun key e he => ?_, fun e he => ?_⟩
  · cases h.recorded.symm.trans he
  · cases h.prior.symm.trans he

theorem dispatch_closed (h : Open k g) {event : Event} :
    pages.wp (fun _ g' => Closed k.srv g g') (dispatch k event) g := by
  unfold dispatch
  rw [Monitor.wp_bind_iff, wp_currentPolicy]
  intro p
  cases p with
  | none =>
    dsimp only
    rw [wp_fail]
    exact (h.unsettled.write [_]).closed k.srv
  | some p =>
    dsimp only
    rw [Monitor.wp_bind_iff]
    have hprepass : (prepass k p.routes).Does pages.Ignored (fun _ => True) :=
      does_prepass p.routes (fun r _ => pages_ignores (.wouldAllow r.provider) trivial)
        (fun b n => pages_ignores (.ask (.budgetSkip b n)) trivial)
        (fun p => pages_ignores (.ask (.fleetUnhealthy p)) trivial)
    exact hprepass.wp_ignored (fun r _ => routeLoop_closed h _ _)

theorem replay_over {id : String} {start : Int} {e : IdemEntry} {event : Event} {srv : Server}
    (hp : g.prior = some e) (hr : g.recorded = none) (hw : g.written = []) :
    pages.wp (fun ended g' => Over srv ended.event.status g') (replay id start e event) g := by
  have hover : ∀ bs, Replayed e bs → Over srv e.status (g.write bs) := by
    intro bs hbs
    refine ⟨fun key e' he => ?_, fun e' he => ?_⟩
    · cases hr.symm.trans he
    · obtain rfl : e = e' := Option.some.inj (hp.symm.trans he)
      refine ⟨rfl, ?_⟩
      rw [Page.write, hw]
      exact hbs
  unfold replay
  simp only [Monitor.wp_bind_iff, wp_setHeader]
  cases hs : e.stream with
  | false =>
    simp only [Bool.not_false, if_true, Monitor.wp_bind_iff, wp_setHeader, wp_writeHeader, wp_write]
    intro ok
    refine hover [_] ?_
    rw [Replayed, if_neg (by simp [hs])]
    cases e.response <;> rfl
  | true =>
    simp only [Bool.not_true, Bool.false_eq_true, if_false, Monitor.wp_bind_iff, wp_setHeader, wp_write]
    intro ok ok'
    rw [List.append_assoc]
    refine hover [_, _] ?_
    rw [Replayed, if_pos hs]
    exact ⟨id, unix start, rfl⟩

theorem claim_over (h : Unasked g) {event : Event} :
    pages.wp (fun e g' => Over k.srv e.event.status g') (claim k event) g := by
  unfold claim
  split
  · rename_i hkey
    refine Monitor.wp_mono (dispatch_closed ⟨fun hk => absurd hkey hk, h.recorded, h.written⟩) ?_
    exact fun e g' hc => hc.over h.prior
  · rw [Monitor.wp_bind_iff, wp_beginKey]
    refine ⟨h.asked, fun x => ?_⟩
    have hfail : priorOf x = none → ∀ status msg, pages.wp (fun e g' => Over k.srv e.event.status g')
        (fail event false status msg) { g with asked := some (k.key, k.body), prior := priorOf x } := by
      intro hx status msg
      rw [wp_fail]
      refine ⟨fun key e he => ?_, fun e he => ?_⟩
      · cases h.recorded.symm.trans he
      · cases hx.symm.trans he
    have hdispatch : priorOf x = none → pages.wp (fun e g' => Over k.srv e.event.status g')
        (dispatch k event >>= fun e => do
          if !e.settled then releaseKey k.key
          pure e) { g with asked := some (k.key, k.body), prior := priorOf x } := by
      intro hx
      have hopen : Open k { g with asked := some (k.key, k.body), prior := priorOf x } :=
        ⟨fun _ => rfl, h.recorded, h.written⟩
      refine Monitor.wp_seq (dispatch_closed hopen) ?_
      intro e g' hc
      split
      · rw [Monitor.wp_bind_iff, wp_releaseKey]
        exact hc.over hx
      · exact hc.over hx
    rcases x with e | prior
    · cases e with
      | mismatch => exact hfail rfl _ _
      | conflict => exact hfail rfl _ _
      | full => exact hdispatch rfl
      | disk => exact hdispatch rfl
    · cases prior with
      | none => exact hdispatch rfl
      | some prior => exact replay_over rfl h.recorded h.written

theorem pages_clerical (o : Op) (h : Clerical o) : pages.Ignored o :=
  pages_ignores o (by cases o <;> first | trivial | cases h)

theorem serve_over (h : Unasked g) {srv : Server} {r : Request} {id : String} {start : Int}
    {event : Event} :
    pages.wp (fun e g' => Over srv e.event.status g') (serve srv r id start event) g := by
  have hserves : Serves event (fun p => ∀ g, Unasked g →
      pages.wp (fun e g' => Over srv e.event.status g') p g) := by
    apply serves_wp (R := fun e => Over srv e.status)
    · exact fun g o ho => (pages_clerical o ho g).1
    · intro g o x ho hg
      rw [(pages_clerical o ho g).2 x]
      exact hg
    · exact fun o ho => pages_clerical o (clerical_of_leaving o ho)
    · exact fun g status msg _ hg => hg.fail srv
  refine hserves.serve (fun b c _ g hg => ?_) g h
  exact claim_over (k := ⟨srv, r.idempotencyKey, id, start, b, c⟩) hg

/-- What any request leaves on its page. -/
theorem chat_over (srv : Server) (r : Request) :
    pages.wp (fun e g' => Over srv e.status g') (chat srv r) {} := by
  apply chat_of_serve (Ψ := fun p => pages.wp (fun e g' => Over srv e.status g') p {})
  · intro o f ho hf
    refine ⟨(pages_clerical o ho _).1, fun x _ => ?_⟩
    rw [(pages_clerical o ho _).2 x]
    exact hf x
  · intro id eventID trace span parent start
    refine Monitor.wp_seq (serve_over ⟨rfl, rfl, rfl, rfl⟩) (fun ended g' ho => ?_)
    have hepilogue : (epilogue srv start ended).Does pages.Ignored _ := does_epilogue.relax (fun o ho =>
      pages_ignores o (by cases o <;> first | trivial | cases ho))
    refine hepilogue.wp_ignored ?_
    rintro event ⟨t, rfl⟩
    exact ho

end

/-- What was recorded, and what the store was asked and answered, stays on the page. -/
theorem page_kept {g : Page} {o : Op} (x : Ans o) (h : pages.ok g o) :
    (∀ r, g.recorded = some r → (pages.next g o x).recorded = some r) ∧
      ∀ a prior, g.asked = some a ∧ g.prior = prior →
        (pages.next g o x).asked = some a ∧ (pages.next g o x).prior = prior := by
  cases o with
  | beginKey key body =>
    refine ⟨fun r hr => hr, fun a prior ha => ?_⟩
    cases (show g.asked = none from h).symm.trans ha.1
  | finishKey key e =>
    refine ⟨fun r hr => ?_, fun a prior ha => ha⟩
    cases (show g.recorded = none from h).symm.trans hr
  | _ => exact ⟨fun r hr => hr, fun a prior ha => ha⟩

section
variable {srv : Server} {r : Request} {log : List (Effect.Event Op Ans)} {ev : Event}

/-- What holds of the page once an operation has been performed, and stays so. -/
theorem page_of_mem {I : Page → Prop} {e : Effect.Event Op Ans} (h : (chat srv r).Run log (.ret ev))
    (he : e ∈ log) (hset : ∀ g, I (pages.next g e.op e.ans))
    (hkeep : ∀ g o (x : Ans o), pages.ok g o → I g → I (pages.next g o x)) : I (pageOf log) := by
  obtain ⟨pre, post, rfl⟩ := List.append_of_mem he
  rw [List.append_cons] at h ⊢
  refine Monitor.inv_run h (chat_over srv r) (Monitor.relied_of_may (fun _ _ _ => trivial) _ _) ?_ ?_
  · rw [Monitor.after_append]
    exact hset _
  · exact fun d _ g hi hok => hkeep g d.op d.ans hok hi

theorem recorded_of_mem {key : String} {e : IdemEntry} (h : (chat srv r).Run log (.ret ev))
    (he : ⟨.finishKey key e, ()⟩ ∈ log) : (pageOf log).recorded = some (key, e) :=
  page_of_mem (I := fun g => g.recorded = some (key, e)) h he (fun _ => rfl)
    (fun _ _ x hok hi => (page_kept x hok).1 _ hi)

theorem asked_of_mem {key : String} {body : Bytes} {x : Except StoreError (Option IdemEntry)}
    (h : (chat srv r).Run log (.ret ev)) (he : ⟨.beginKey key body, x⟩ ∈ log) :
    (pageOf log).asked = some (key, body) ∧ (pageOf log).prior = priorOf x :=
  page_of_mem (I := fun g => g.asked = some (key, body) ∧ g.prior = priorOf x) h he
    (fun _ => ⟨rfl, rfl⟩) (fun _ _ y hok hi => (page_kept y hok).2 _ _ hi)

theorem over_of_run (h : (chat srv r).Run log (.ret ev)) : Over srv ev.status (pageOf log) :=
  Monitor.wp_run h (chat_over srv r) (Monitor.relied_of_may (fun _ _ _ => trivial) _ _)

end

/-- The bytes that a run has written to its client, in order. -/
def written (log : List (Effect.Event Op Ans)) : List Bytes := (pageOf log).written

/-- A store that holds the file of an entry answers its request with that entry, as long as it
lives. -/
theorem begin_stored {s : IdemStore} {sha256 : Bytes → Bytes} {now written : Int} {key : String}
    {body : Bytes} {e : IdemEntry} (hs : Storable e) (hdone : e.state = .done)
    (hbody : e.bodyHash = IdemStore.hashBody sha256 body)
    (hfile : s.files.lookup (IdemStore.path sha256 key) = some ⟨encodeEntry e, written⟩)
    (hlive : now - e.stored * second ≤ s.ttl) (disk : DiskWrite) :
    (s.begin sha256 now key body disk).1 = .ok (some e) := by
  have hread : s.read sha256 now key = some e := by
    rw [IdemStore.read, hfile]
    simp only [decode_encode hs]
    rw [if_neg (by omega)]
  simp [IdemStore.begin, hread, hbody, hdone]

/-- What `finish` leaves in the directory when its write succeeds. -/
theorem finish_stored {s s' : IdemStore} {sha256 : Bytes → Bytes} {now : Int} {key : String}
    {e : IdemEntry} (h : s.finish sha256 now key e .complete = ([], s')) :
    s'.files.lookup (IdemStore.path sha256 key) = some ⟨encodeEntry e, now⟩ := by
  rcases hw : s.write sha256 now key e .complete with ⟨err, s''⟩
  rw [IdemStore.finish, hw] at h
  unfold IdemStore.write at hw
  dsimp only at hw
  split at hw
  · cases hw
    cases h
  · cases hw
    cases h
    exact AList.lookup_insert _

/-- What a client that is given a replay gets, against what the client of the request that was
recorded has got. -/
structure SameAnswer (e : IdemEntry) (first second : List Bytes) : Prop where
  whole : e.stream = false → ∃ answer, first = [answer] ∧ second = [answer] ∧
    marshalEntry { e with response := none } answer = some (encodeEntry e) ∧
    unmarshalEntry (encodeEntry e) = some ({ e with response := none }, answer)
  streamed : e.stream = true → ∃ k route chunks,
    first = chunks.map (chunkFrame k route) ++ [doneFrame] ∧
    ∀ finish, finishes chunks = [finish] → ∃ id created, second =
      [sseFrame (chunk id {} { text := textOf chunks, finish := finish } created), doneFrame]

theorem Told.storable {e : IdemEntry} {bs : List Bytes} (h : Told e bs)
    (hstored : GoJson.inInt64 e.stored = true) (hstatus : e.status = 200) : Storable e := by
  have hs : GoJson.inInt64 e.status = true := by
    rw [hstatus]
    decide
  cases h with
  | whole stream response => exact storable_completion hstored hs response
  | stream stream response text finish => exact storable_plain hstored hs response

theorem Told.sameAnswer {e : IdemEntry} {first second : List Bytes} (h : Told e first)
    (hs : Storable e) (hr : Replayed e second) : SameAnswer e first second := by
  unfold Replayed at hr
  cases h with
  | whole stream response =>
    refine ⟨fun _ => ⟨_, rfl, ?_, marshalEntry_sent hs response, unmarshalEntry_encode hs response⟩, ?_⟩
    · rw [if_neg (by simp [stream]), response] at hr
      exact hr
    · intro hstream
      cases stream.symm.trans hstream
  | stream stream response text finish =>
    refine ⟨fun hwhole => ?_, fun _ => ⟨_, _, _, rfl, fun f hf => ?_⟩⟩
    · cases stream.symm.trans hwhole
    · rw [if_pos stream, text, finish f hf] at hr
      exact hr

/-- A request whose answer was recorded and stored, and a later one with the same key and body while
the entry lives: the later one is given that entry, and its client gets the same answer. A whole
answer is the same bytes, through the file's own encoding of them; a stream with one finish is one
chunk with the whole text and that finish, and the end of the stream. -/
theorem replay_delivers_same_answer (srv : Server) (r r' : Request)
    (log log' : List (Effect.Event Op Ans)) (ev ev' : Event)
    (hfirst : (chat srv r).Run log (.ret ev)) (hsecond : (chat srv r').Run log' (.ret ev'))
    (key : String) (body : Bytes) (x : Except StoreError (Option IdemEntry)) (e : IdemEntry)
    (hasked : ⟨.beginKey key body, x⟩ ∈ log) (hrecorded : ⟨.finishKey key e, ()⟩ ∈ log)
    (hdone : e.state = .done) (store stored later : IdemStore) (now now' : Int) (disk : DiskWrite)
    (hstored : store.finish srv.lib.sha256 now key e .complete = ([], stored))
    (hkept : later.files.lookup (IdemStore.path srv.lib.sha256 key) =
      stored.files.lookup (IdemStore.path srv.lib.sha256 key))
    (hlive : now' - e.stored * second ≤ later.ttl)
    (hagain : ⟨.beginKey key body, (later.begin srv.lib.sha256 now' key body disk).1⟩ ∈ log') :
    (later.begin srv.lib.sha256 now' key body disk).1 = .ok (some e) ∧ ev'.status = 200 ∧
      SameAnswer e (written log) (written log') := by
  have hr := (over_of_run hfirst).recorded key e (recorded_of_mem hfirst hrecorded) hdone
  obtain ⟨body', hbody, hhash⟩ := hr.asked
  obtain rfl : body = body' := by
    have hsame := (asked_of_mem hfirst hasked).1.symm.trans hbody
    cases hsame
    rfl
  have hstorable := hr.told.storable hr.stored hr.status
  have hbegin := begin_stored hstorable hdone hhash (hkept.trans (finish_stored hstored)) hlive disk
  have hprior := (asked_of_mem hsecond hagain).2
  rw [hbegin] at hprior
  obtain ⟨hstatus, hreplayed⟩ := (over_of_run hsecond).replayed e hprior
  exact ⟨hbegin, hstatus.trans hr.status, hr.told.sameAnswer hstorable hreplayed⟩

/-- What is on a page was put there. -/
theorem mem_of_page (log : List (Effect.Event Op Ans)) (g : Page) :
    (∀ key e, (pages.after g log).recorded = some (key, e) →
      g.recorded = some (key, e) ∨ ⟨.finishKey key e, ()⟩ ∈ log) ∧
    ∀ key body, (pages.after g log).asked = some (key, body) →
      g.asked = some (key, body) ∨ ∃ x, ⟨.beginKey key body, x⟩ ∈ log := by
  induction log generalizing g with
  | nil => exact ⟨fun key e h => .inl h, fun key body h => .inl h⟩
  | cons d log ih =>
    obtain ⟨o, y⟩ := d
    rw [Monitor.after_cons]
    refine ⟨fun key e h => ?_, fun key body h => ?_⟩
    · rcases (ih _).1 key e h with h | h
      · cases o with
        | finishKey key' e' =>
          cases h
          exact .inr List.mem_cons_self
        | _ => exact .inl h
      · exact .inr (List.mem_cons_of_mem _ h)
    · rcases (ih _).2 key body h with h | ⟨x, h⟩
      · cases o with
        | beginKey key' body' =>
          cases h
          exact .inr ⟨y, List.mem_cons_self⟩
        | _ => exact .inl h
      · exact .inr ⟨x, List.mem_cons_of_mem _ h⟩

/-- Everything goes well, and the store answers as `begun` says. -/
def willing (begun : String → Bytes → Except StoreError (Option IdemEntry)) : (o : Op) → Ans o
  | .currentPolicy => some NoReplay.plainPolicy
  | .ask .draining => false
  | .ask .policyExpired => false
  | .ask (.budgetSkip _ _) => false
  | .ask (.fleetUnhealthy _) => false
  | .beginKey key body => begun key body
  | .readBody => some NoReplay.plainBody
  | .send _ => .response 200 "" "application/json" ⟨ascii ("\x7b\"choices\":[\x7b\"message\":\x7b" ++
      "\"content\":\"a < b & \\u2028\"\x7d,\"finish_reason\":\"stop\"\x7d]\x7d"), false⟩
  | o => Shape.agreeable o

def asking (begun : String → Bytes → Except StoreError (Option IdemEntry)) :
    List (Effect.Event Op Ans) × Event :=
  (chat NoReplay.plainServer (NoReplay.plainRequest "k")).answered (willing begun)

/-- A request that claims its key, and the entry it records. -/
def asked : List (Effect.Event Op Ans) × Event := asking (fun _ _ => .ok none)

def kept : IdemEntry := ((pageOf asked.1).recorded.getD ("", {})).2

def shelf : IdemStore := newIdemStore ∅ 0 (60 * second) 1048576

def shelved : IdemStore := (shelf.finish NoReplay.plainLib.sha256 0 "k" kept .complete).2

/-- The same request a second later. -/
def askedAgain : List (Effect.Event Op Ans) × Event :=
  asking (fun key body => (shelved.begin NoReplay.plainLib.sha256 second key body .complete).1)

theorem asked_recorded : ((pageOf asked.1).recorded.map (fun r => (r.1, r.2.state))) = some ("k", .done) ∧
    (pageOf asked.1).asked = some ("k", NoReplay.plainBody) ∧
    (shelf.finish NoReplay.plainLib.sha256 0 "k" kept .complete).1 = [] ∧
    kept.stream = false ∧ second - kept.stored * second ≤ shelved.ttl ∧
    (pageOf askedAgain.1).asked = some ("k", NoReplay.plainBody) := by
  decide +kernel

theorem replay_delivers_same_answer_again :
    askedAgain.2.status = 200 ∧ ∃ answer, written asked.1 = [answer] ∧ written askedAgain.1 = [answer] := by
  obtain ⟨hrec, hask, hfin, hwhole, hlive, hagain⟩ := asked_recorded
  obtain ⟨⟨key, e⟩, he, hkey⟩ := Option.map_eq_some_iff.mp hrec
  have hkept : kept = e := by rw [kept, he]; rfl
  obtain ⟨rfl, hdone⟩ := Prod.mk.inj hkey
  have hrecorded : ⟨.finishKey "k" e, ()⟩ ∈ asked.1 :=
    ((mem_of_page asked.1 {}).1 "k" e he).resolve_left (fun h => by cases h)
  obtain ⟨x, hx⟩ := ((mem_of_page asked.1 {}).2 _ _ hask).resolve_left (fun h => by cases h)
  obtain ⟨y, hy⟩ := ((mem_of_page askedAgain.1 {}).2 _ _ hagain).resolve_left (fun h => by cases h)
  have hans : y = (shelved.begin NoReplay.plainLib.sha256 second "k" NoReplay.plainBody .complete).1 :=
    Prog.answered_ans hy
  rw [hans] at hy
  rw [← hkept] at hrecorded hdone
  have hstored : shelf.finish NoReplay.plainLib.sha256 0 "k" kept .complete = ([], shelved) := by
    rw [← hfin, shelved]
  have hboth := replay_delivers_same_answer NoReplay.plainServer _ _ asked.1 askedAgain.1 _ _
    (Prog.run_answered _ _) (Prog.run_answered _ _) "k" _ x kept hx hrecorded hdone shelf shelved shelved 0
    second .complete hstored rfl hlive hy
  obtain ⟨answer, hfirst, hsecond, -⟩ := hboth.2.2.whole hwhole
  exact ⟨hboth.2.1, answer, hfirst, hsecond⟩

end Switchboard.Proofs.Replay
