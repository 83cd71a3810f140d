import Switchboard.Proofs.NoReplay

namespace Switchboard.Proofs.Shape
open Text Gateway
open Effect (Monitor Prog)

/-- What one part of a request has sent to the client, whether some of it was lost, and
what it told the budget table. -/
structure Tape where
  sent : List Bytes := []
  lost : Bool := false
  observed : List (BudgetKey × Int × Bool) := []

def Tape.push (g : Tape) (b : Bytes) (ok : Bool) : Tape :=
  { g with sent := g.sent ++ [b], lost := g.lost || !ok }

def tape : Monitor Op Ans Tape where
  may _ _ _ := True
  ok _ _ := True
  next
    | g, .write b, ok => g.push b ok
    | g, .tell (.budgetObserve k n produced), _ => { g with observed := g.observed ++ [(k, n, produced)] }
    | g, _, _ => g

/-- What is on the tape after the operations of a run. -/
def tapeOf (log : List (Effect.Event Op Ans)) : Tape := tape.after {} log

section
variable {g : Tape}

@[simp] theorem wp_write {b : Bytes} {Q : Bool → Tape → Prop} :
    tape.wp Q (write b) g ↔ ∀ ok, Q ok (g.push b ok) :=
  ⟨fun h ok => h.2 ok trivial, fun h => ⟨trivial, fun ok _ => h ok⟩⟩

@[simp] theorem wp_setHeader {name value : String} {Q : Unit → Tape → Prop} :
    tape.wp Q (setHeader name value) g ↔ Q () g :=
  ⟨fun h => h.2 () trivial, fun h => ⟨trivial, fun _ _ => h⟩⟩

@[simp] theorem wp_count {m : Metric} {n : Int} {Q : Unit → Tape → Prop} :
    tape.wp Q (tell (.count m n)) g ↔ Q () g :=
  ⟨fun h => h.2 () trivial, fun h => ⟨trivial, fun _ _ => h⟩⟩

@[simp] theorem wp_countIf {b : Bool} {m : Metric} {n : Int} {Q : Unit → Tape → Prop} :
    tape.wp Q (tellIf b (.count m n)) g ↔ Q () g := by
  cases b with
  | true => exact wp_count
  | false => exact Iff.rfl

end

/-- The event of a chunk. -/
def chunkFrame (k : Inference) (route : Route) (n : Normalized) : Bytes :=
  sseFrame (chunk k.id route n (unix k.start))

def errorFrame (k : Inference) : Bytes := sseFrame (interruptedJson k.id)

def doneFrame : Bytes := ascii "data: [DONE]\n\n"

theorem chunk_keys (id object created model choices : Json) :
    GoJson.map [("id", id), ("object", object), ("created", created), ("model", model),
      ("choices", choices)] =
    .obj [("choices", choices), ("created", created), ("id", id), ("model", model),
      ("object", object)] := by
  simp +decide [GoJson.map, sortKeys, KeyLe]

/-- The three kinds of events differ in their ninth byte. -/
theorem chunkFrame_byte (k : Inference) (route : Route) (n : Normalized) :
    (chunkFrame k route n)[8]? = some 99 := by
  unfold chunkFrame chunk
  rw [chunk_keys]
  rfl

theorem errorFrame_byte (k : Inference) : (errorFrame k)[8]? = some 101 := rfl

theorem chunkFrame_ne_doneFrame (k : Inference) (route : Route) (n : Normalized) :
    chunkFrame k route n ≠ doneFrame := by
  intro h
  have hbyte := chunkFrame_byte k route n
  rw [h] at hbyte
  cases hbyte

theorem chunkFrame_ne_errorFrame (k : Inference) (route : Route) (n : Normalized) :
    chunkFrame k route n ≠ errorFrame k := by
  intro h
  have hbyte := chunkFrame_byte k route n
  rw [h, errorFrame_byte] at hbyte
  cases hbyte

theorem errorFrame_ne_doneFrame (k : Inference) : errorFrame k ≠ doneFrame := by
  intro h
  have hbyte := errorFrame_byte k
  rw [h] at hbyte
  cases hbyte

def textOf : List Normalized → String
  | [] => ""
  | n :: ns => n.text ++ textOf ns

theorem textOf_append (ms ns : List Normalized) : textOf (ms ++ ns) = textOf ms ++ textOf ns := by
  induction ms with
  | nil => simp [textOf]
  | cons m ms ih => simp [textOf, ih, String.append_assoc]

/-- The chunks sent so far, and what the relay remembers about them. -/
structure Sent (k : Inference) (route : Route) (st : StreamState) (chunks : List Normalized)
    (g : Tape) : Prop where
  sent : g.sent = chunks.map (chunkFrame k route)
  lost : g.lost = false
  text : textOf chunks = st.out.text
  order : chunks.Pairwise (fun m n => m.finish ≠ "" → n.text = "")
  quiet : st.wrote = false → chunks = []
  unfinished : st.finished = false → ∀ n ∈ chunks, n.finish = ""
  finished : st.finished = true → st.pending ≠ none ∨ ∃ n ∈ chunks, n.finish ≠ ""
  pending : ∀ ch, st.pending = some ch →
    ∃ n, ch = chunk k.id route n (unix k.start) ∧ n.text = "" ∧ n.finish = "length"

/-- One more chunk, if its text does not come after a finish. -/
theorem Sent.push {k : Inference} {route : Route} {st : StreamState} {chunks : List Normalized}
    {g : Tape} {n : Normalized} (h : Sent k route st chunks g)
    (hn : (∃ m ∈ chunks, m.finish ≠ "") → n.text = "") :
    (g.push (chunkFrame k route n) true).sent = (chunks ++ [n]).map (chunkFrame k route) ∧
      (g.push (chunkFrame k route n) true).lost = false ∧
      textOf (chunks ++ [n]) = st.out.text ++ n.text ∧
      (chunks ++ [n]).Pairwise (fun m n => m.finish ≠ "" → n.text = "") := by
  refine ⟨by simp [Tape.push, h.sent], by simp [Tape.push, h.lost], ?_, ?_⟩
  · rw [textOf_append, h.text]
    simp [textOf]
  · refine List.pairwise_append.mpr ⟨h.order, by simp, ?_⟩
    intro m hm m' hm' hfinish
    obtain rfl := List.mem_singleton.mp hm'
    exact hn ⟨m, hm, hfinish⟩

/-- What handling events leaves behind: an error once something was lost. -/
structure Kept (k : Inference) (route : Route) (observed : List (BudgetKey × Int × Bool))
    (r : StreamState × Option StreamStop) (g : Tape) : Prop where
  observed : g.observed = observed
  lost : g.lost = true → ∃ e, r.2 = some (.error e)
  kept : g.lost = false → ∃ chunks, Sent k route r.1 chunks g
  complete : r.2 = some .complete → r.1.finished = true

theorem frameEnd_complete {provider : String} {st : StreamState} {done : Bool}
    (h : frameEnd provider st done = some .complete) : st.finished = true := by
  unfold frameEnd at h
  split at h
  · split at h
    · cases h
    · rename_i hf
      simpa using hf
  · cases h

theorem Sent.kept {k : Inference} {route : Route} {st' : StreamState} {chunks : List Normalized}
    {g : Tape} {stop : Option StreamStop} (h : Sent k route st' chunks g)
    (hstop : stop = some .complete → st'.finished = true) :
    Kept k route g.observed (st', stop) g :=
  ⟨rfl, fun hl => absurd hl (by simp [h.lost]), fun _ => ⟨chunks, h⟩, hstop⟩

theorem emitFrame_spec (k : Inference) (route : Route) {st st' : StreamState} {n : Normalized}
    {done : Bool} {chunks : List Normalized} {g : Tape} (h : Sent k route st chunks g)
    (hout : st'.out.text = st.out.text) (hwrote : st'.wrote = st.wrote)
    (hpending : st'.pending = st.pending) (hfinished : st'.finished = (st.finished || n.finish != ""))
    (hlate : st.finished = true → n.text = "") :
    tape.wp (Kept k route g.observed) (emitFrame k route st' n done) g := by
  unfold emitFrame
  split
  · dsimp only
    split
    · rename_i hheld
      obtain ⟨hw, ht, hf⟩ := hheld
      have hnone : chunks = [] := h.quiet (hwrote.symm.trans hw)
      refine Sent.kept ⟨h.sent, h.lost, h.text.trans hout.symm, h.order,
        fun _ => hnone, ?_, fun _ => .inl (by simp), ?_⟩ (by simp)
      · simp [hnone]
      · intro ch hch
        obtain rfl := Option.some.inj hch
        exact ⟨n, rfl, ht, hf⟩
    · simp only [Monitor.wp_bind_iff, wp_write]
      intro ok
      cases ok with
      | false => exact ⟨rfl, fun _ => ⟨_, rfl⟩, fun hl => by simp [Tape.push] at hl, by simp⟩
      | true =>
        have htext : (∃ m ∈ chunks, m.finish ≠ "") → n.text = "" := by
          intro hm
          obtain ⟨m, hmem, hf⟩ := hm
          cases hst : st.finished with
          | true => exact hlate hst
          | false => exact absurd (h.unfinished hst m hmem) hf
        obtain ⟨hsent, hlost, htexts, horder⟩ := h.push htext
        have hnote : (st'.noteChunk n).finished = st'.finished := rfl
        refine Sent.kept ⟨hsent, hlost, ?_, horder, ?_, ?_, ?_, ?_⟩
          frameEnd_complete
        · rw [htexts, ← hout]
          rfl
        · intro hw
          cases hw
        · intro hf m hm
          rw [hnote, hfinished, Bool.or_eq_false_iff] at hf
          rcases List.mem_append.mp hm with hm | hm
          · exact h.unfinished hf.1 m hm
          · obtain rfl := List.mem_singleton.mp hm
            simpa using hf.2
        · intro hf
          rw [hnote, hfinished, Bool.or_eq_true] at hf
          rcases hf with hf | hf
          · rcases h.finished hf with hp | ⟨m, hm, hfin⟩
            · exact .inl (fun hnone => hp (hpending.symm.trans hnone))
            · exact .inr ⟨m, List.mem_append_left _ hm, hfin⟩
          · exact .inr ⟨n, by simp, by simpa using hf⟩
        · intro ch hch
          exact h.pending ch (hpending.symm.trans hch)
  · rename_i hempty
    simp only [not_or, not_not] at hempty
    have hfin : st'.finished = st.finished := by simpa [hempty.2] using hfinished
    refine Sent.kept ⟨h.sent, h.lost, h.text.trans hout.symm, h.order, ?_, ?_, ?_, ?_⟩
      frameEnd_complete
    · exact fun hw => h.quiet (hwrote.symm.trans hw)
    · exact fun hf => h.unfinished (hfin.symm.trans hf)
    · intro hf
      rw [hpending]
      exact h.finished (hfin.symm.trans hf)
    · exact fun ch hch => h.pending ch (hpending.symm.trans hch)

theorem noteFrame_text (st : StreamState) (n : Normalized) :
    (st.noteFrame n).out.text = st.out.text := by
  unfold StreamState.noteFrame
  dsimp only
  split
  · rfl
  · rfl

theorem noteFrame_finish (st : StreamState) (n : Normalized) :
    (st.noteFrame n).out.finish = st.out.finish := by
  unfold StreamState.noteFrame
  dsimp only
  split
  · rfl
  · rfl

theorem onEvent_spec (k : Inference) (route : Route) {st : StreamState} {chunks : List Normalized}
    {g : Tape} (h : Sent k route st chunks g) (b : Bytes) :
    tape.wp (Kept k route g.observed) (onEvent k route st b) g := by
  unfold onEvent
  split
  · split
    · exact h.kept (by simp)
    · rename_i hok
      simp only [not_or, not_not, Bool.not_eq_false] at hok
      exact h.kept (fun _ => hok.2)
  · dsimp only
    split
    · exact h.kept (by simp)
    · simp only [Monitor.wp_bind_iff, wp_countIf]
      split
      · refine Sent.kept ⟨h.sent, h.lost, ?_, h.order, h.quiet, h.unfinished,
          h.finished, h.pending⟩ (by simp)
        exact h.text.trans (noteFrame_text st _).symm
      · rename_i hlate
        simp only [not_and, not_not] at hlate
        exact emitFrame_spec k route h (noteFrame_text st _) rfl rfl rfl hlate

theorem onEvents_spec (k : Inference) (route : Route) (bs : List Bytes) {st : StreamState}
    {chunks : List Normalized} {g : Tape} (h : Sent k route st chunks g) :
    tape.wp (Kept k route g.observed) (onEvents k route st bs) g := by
  induction bs generalizing st chunks g with
  | nil => exact h.kept (by simp)
  | cons b bs ih =>
    refine Monitor.wp_seq (onEvent_spec k route h b) ?_
    intro r g' hr
    obtain ⟨st', stop⟩ := r
    cases stop with
    | some s => exact hr
    | none =>
      have hlost : g'.lost = false := by
        cases hl : g'.lost with
        | false => rfl
        | true =>
          obtain ⟨e, he⟩ := hr.lost hl
          cases he
      obtain ⟨chunks', h'⟩ := hr.kept hlost
      have hrest := ih h'
      rw [hr.observed] at hrest
      exact hrest

/-- What a stream may have sent, by how it ended: chunks and the end of the stream, or
nothing, or chunks and an error. -/
def Layout (k : Inference) (route : Route) (chunks : List Normalized) (sent : List Bytes) :
    StreamEnd → Prop
  | .complete => sent = chunks.map (chunkFrame k route) ++ [doneFrame] ∧
      (∃ n ∈ chunks, n.finish ≠ "") ∧ sent.count doneFrame = 1 ∧ errorFrame k ∉ sent
  | .empty => chunks = [] ∧ sent = []
  | .failed _ => sent = chunks.map (chunkFrame k route) ++ [errorFrame k] ∧
      sent.count (errorFrame k) = 1 ∧ doneFrame ∉ sent

/-- A whole stream as its client sees it. -/
structure Relayed (k : Inference) (route : Route) (r : StreamResult × StreamEnd)
    (sent : List Bytes) (chunks : List Normalized) : Prop where
  layout : Layout k route chunks sent r.2
  order : chunks.Pairwise (fun m n => m.finish ≠ "" → n.text = "")
  text : textOf chunks = r.1.text

theorem layout_complete {k : Inference} {route : Route} {chunks : List Normalized}
    (h : ∃ n ∈ chunks, n.finish ≠ "") :
    Layout k route chunks (chunks.map (chunkFrame k route) ++ [doneFrame]) .complete := by
  refine ⟨rfl, h, ?_, ?_⟩
  · rw [List.count_append, List.count_eq_zero_of_not_mem, List.count_singleton_self]
    intro hmem
    obtain ⟨n, -, hn⟩ := List.mem_map.mp hmem
    exact chunkFrame_ne_doneFrame k route n hn
  · intro hmem
    rcases List.mem_append.mp hmem with hmem | hmem
    · obtain ⟨n, -, hn⟩ := List.mem_map.mp hmem
      exact chunkFrame_ne_errorFrame k route n hn
    · exact errorFrame_ne_doneFrame k (List.mem_singleton.mp hmem)

theorem layout_failed {k : Inference} {route : Route} {chunks : List Normalized} {e : StreamError} :
    Layout k route chunks (chunks.map (chunkFrame k route) ++ [errorFrame k]) (.failed e) := by
  refine ⟨rfl, ?_, ?_⟩
  · rw [List.count_append, List.count_eq_zero_of_not_mem, List.count_singleton_self]
    intro hmem
    obtain ⟨n, -, hn⟩ := List.mem_map.mp hmem
    exact chunkFrame_ne_errorFrame k route n hn
  · intro hmem
    rcases List.mem_append.mp hmem with hmem | hmem
    · obtain ⟨n, -, hn⟩ := List.mem_map.mp hmem
      exact chunkFrame_ne_doneFrame k route n hn
    · exact errorFrame_ne_doneFrame k (List.mem_singleton.mp hmem).symm

/-- What a relay comes to. -/
structure Ended (k : Inference) (route : Route) (observed : List (BudgetKey × Int × Bool))
    (r : StreamResult × StreamEnd) (g : Tape) : Prop where
  observed : g.observed = observed
  lost : g.lost = true → ∃ e, r.2 = .failed e
  sent : g.lost = false → ∃ chunks, Relayed k route r g.sent chunks

theorem interrupted_spec {k : Inference} {route : Route} {st : StreamState} {e : StreamError}
    {g : Tape} (h : g.lost = false → ∃ chunks, Sent k route st chunks g) :
    tape.wp (Ended k route g.observed) (interrupted k st e) g := by
  unfold interrupted
  simp only [Monitor.wp_bind_iff, wp_write]
  intro ok
  refine ⟨rfl, fun _ => ⟨e, rfl⟩, ?_⟩
  intro hlost
  have hg : g.lost = false := (Bool.or_eq_false_iff.mp hlost).1
  obtain ⟨chunks, h⟩ := h hg
  refine ⟨chunks, ?_, h.order, h.text⟩
  show Layout k route chunks (g.sent ++ [errorFrame k]) (.failed e)
  rw [h.sent]
  exact layout_failed

theorem sendDone_spec {k : Inference} {route : Route} {st : StreamState} {chunks : List Normalized}
    {g : Tape} (hsent : g.sent = chunks.map (chunkFrame k route)) (hlost : g.lost = false)
    (htext : textOf chunks = st.out.text)
    (horder : chunks.Pairwise (fun m n => m.finish ≠ "" → n.text = ""))
    (hfinish : ∃ n ∈ chunks, n.finish ≠ "") :
    tape.wp (Ended k route g.observed) (sendDone st) g := by
  unfold sendDone
  simp only [Monitor.wp_bind_iff, wp_write]
  intro ok
  cases ok with
  | false => exact ⟨rfl, fun _ => ⟨_, rfl⟩, fun hl => by simp [Tape.push] at hl⟩
  | true =>
    refine ⟨rfl, fun hl => ?_, fun _ => ⟨chunks, ?_, horder, htext⟩⟩
    · simp [Tape.push, hlost] at hl
    · show Layout k route chunks (g.sent ++ [doneFrame]) .complete
      rw [hsent]
      exact layout_complete hfinish

theorem closeStream_spec {k : Inference} {route : Route} {st : StreamState}
    {chunks : List Normalized} {g : Tape} (h : Sent k route st chunks g) (hf : st.finished = true) :
    tape.wp (Ended k route g.observed) (closeStream st) g := by
  unfold closeStream
  split
  · rename_i hnone
    refine sendDone_spec h.sent h.lost h.text h.order ?_
    exact (h.finished hf).resolve_left (fun hp => hp hnone)
  · rename_i ch hch
    obtain ⟨n, rfl, ht, hlength⟩ := h.pending ch hch
    split
    · rename_i hw
      obtain rfl := h.quiet hw
      refine ⟨rfl, fun hl => absurd hl (by simp [h.lost]), fun _ => ⟨[], ?_, h.order, h.text⟩⟩
      exact ⟨rfl, h.sent⟩
    · simp only [Monitor.wp_bind_iff, wp_write]
      intro ok
      cases ok with
      | false => exact ⟨rfl, fun _ => ⟨_, rfl⟩, fun hl => by simp [Tape.push] at hl⟩
      | true =>
        obtain ⟨hsent, hlost, htext, horder⟩ := h.push (n := n) (fun _ => ht)
        refine sendDone_spec hsent hlost ?_ horder ⟨n, by simp, by simp [hlength]⟩
        rw [htext, ht, String.append_empty]

theorem relay_spec (k : Inference) (route : Route) (body : Body) :
    tape.wp (Ended k route []) (relay k route body) {} := by
  have hstart : Sent k route {} [] {} :=
    ⟨rfl, rfl, rfl, .nil, fun _ => rfl, by simp, by simp, by simp⟩
  unfold relay
  simp only [Monitor.wp_bind_iff, wp_setHeader]
  refine Monitor.wp_mono (onEvents_spec k route (readSSE body).1 hstart) ?_
  intro r g hr
  obtain ⟨st, stop⟩ := r
  have hobserved : g.observed = [] := hr.observed
  rw [← hobserved]
  cases stop with
  | none => exact interrupted_spec hr.kept
  | some s =>
    cases s with
    | error e => exact interrupted_spec hr.kept
    | complete =>
      have hlost : g.lost = false := by
        cases hl : g.lost with
        | false => rfl
        | true =>
          obtain ⟨e, he⟩ := hr.lost hl
          cases he
      obtain ⟨chunks, h⟩ := hr.kept hlost
      exact closeStream_spec h (hr.complete rfl)

/-- Whatever a provider sends as its stream, the client gets chunks and the end of the
stream, or nothing at all, or chunks and one error, as the relay says; no text comes after a
finish, and the text that was sent is the one that is remembered. -/
theorem stream_sends_one_of_three_shapes (k : Inference) (route : Route) (contentType : String)
    (body b : Body) (hb : streamBody k.srv.lib route contentType body = some b)
    (log : List (Effect.Event Op Ans)) (r : StreamResult × StreamEnd)
    (hrun : (stream k route contentType body).Run log (.ret r)) (hsent : (tapeOf log).lost = false) :
    ∃ chunks, Relayed k route r (tapeOf log).sent chunks := by
  have hspec : tape.wp (Ended k route []) (stream k route contentType body) {} := by
    unfold stream
    rw [hb]
    exact relay_spec k route b
  have hend := Monitor.wp_run hrun hspec (Monitor.relied_of_may (G := tape) (fun _ _ _ => trivial) _ log)
  exact hend.sent hsent

/-- Everything goes well: what is written arrives, and nothing else matters. -/
def agreeable : (o : Op) → Ans o
  | .now => (0 : Int)
  | .randomID _ => ""
  | .syncState => ""
  | .currentPolicy => none
  | .awaitPolicy => none
  | .ask _ => true
  | .tell _ => ()
  | .wouldAllow _ => true
  | .allow _ => true
  | .settle _ _ => ()
  | .beginKey _ _ => .ok none
  | .finishKey _ _ => ()
  | .releaseKey _ => ()
  | .setHeader _ _ => ()
  | .delHeader _ => ()
  | .writeHeader _ => ()
  | .write _ => true
  | .readBody => none
  | .sign _ => none
  | .send _ => .failed

def plainInference : Inference where
  srv := NoReplay.plainServer
  key := ""
  id := "1"
  start := 0
  body := []
  chat := { stream := true, maxTokens := 16 }

/-- A stream with a text and a finish. -/
def greeting : Body :=
  ⟨ascii ("data: \x7b\"choices\":[\x7b\"delta\":\x7b\"content\":\"hi\"\x7d," ++
    "\"finish_reason\":\"stop\"\x7d]\x7d\n\ndata: [DONE]\n\n"), false⟩

def relayedGreeting : List (Effect.Event Op Ans) × (StreamResult × StreamEnd) :=
  (stream plainInference ⟨"openai", "gpt"⟩ "text/event-stream" greeting).answered agreeable

theorem relayedGreeting_run :
    (stream plainInference ⟨"openai", "gpt"⟩ "text/event-stream" greeting).Run relayedGreeting.1
      (.ret relayedGreeting.2) :=
  Prog.run_answered agreeable (stream plainInference ⟨"openai", "gpt"⟩ "text/event-stream" greeting)

theorem streamBody_sse (lib : Lib) (route : Route) (body : Body) :
    streamBody lib route "text/event-stream" body = some body := by
  unfold streamBody
  rw [if_pos (by decide)]

theorem stream_sends_one_of_three_shapes_greeting :
    (relayedGreeting.2.2 = .complete ∧ (tapeOf relayedGreeting.1).lost = false) ∧
      ∃ chunks, Relayed plainInference ⟨"openai", "gpt"⟩ relayedGreeting.2
        (tapeOf relayedGreeting.1).sent chunks := by
  have hgood : relayedGreeting.2.2 = .complete ∧ (tapeOf relayedGreeting.1).lost = false := by
    decide +kernel
  exact ⟨hgood, stream_sends_one_of_three_shapes _ _ _ _ _ (streamBody_sse _ _ _) _ _
    relayedGreeting_run hgood.2⟩

end Switchboard.Proofs.Shape
