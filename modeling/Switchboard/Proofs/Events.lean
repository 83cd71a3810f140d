import Switchboard.Proofs.Ledger

namespace Switchboard.Proofs.Events
open Text Gateway Tally Ledger Honest NoReplay
open Effect (Monitor Prog Machine Conf)

section
variable {srv : Server} {log : List (Effect.Event Op Ans)} {event : Event}

/-- The status that was shown is the one that is told, unless the last answer was taken for
a stream and is none. -/
theorem shown_of_shows {g : Sheet} (h : Shows srv.lib event.status g) :
    g.shown = some event.status ↔ ¬ Mistyped srv.lib g.sent.head? := by
  rcases h with ⟨hm, hs, hshown⟩ | ⟨hm, hshown⟩
  · rw [hs, hshown]
    simp [hm]
  · simp [hm, hshown]

theorem shown_of_spoken {g : Sheet} (h : Spoken srv.lib event g)
    (hreplay : ∀ e, g.prior = some (.ok (some e)) → e.status = 200) :
    g.shown = some event.status ↔ ¬ Mistyped srv.lib g.sent.head? := by
  unfold Spoken at h
  split at h
  · obtain ⟨hs, hshown, hsent⟩ := h
    simp [hs, hshown, hsent, Mistyped]
  · obtain ⟨hs, hshown, hsent⟩ := h
    simp [hs, hshown, hsent, Mistyped]
  · rename_i e hprior
    obtain ⟨hs, -, hshown, hsent, -⟩ := h
    have h200 := hreplay e hprior
    simp [hs, hshown, hsent, h200, Mistyped]
  · exact shown_of_shows h.2

end

/-- Whatever requests run side by side and whatever their providers answer: a request emits
one event if there is somebody to tell, and the status in it is that of the response its
client received, except when a streamed request was answered with 200 and something that
is not a stream. -/
theorem event_status_is_shown_status_iff [DecidableEq ι]
    (ed25519Verify : Bytes → Bytes → Bytes → Bool) (srv : Server) (tasks : ι → Task) (w : World)
    (hstore : HonestStore w.idem) (c : Conf Op Ans World ι (Option Event))
    (hr : (machine ed25519Verify srv).Reaches Machine.anyMove
      (.start w (fun i => (tasks i).run srv)) c)
    (i : ι) (event : Event) (hi : c.prog i = .ret (some event)) :
    emits (c.log i) = (if srv.telemetry = true then [event] else []) ∧
    (shown (c.log i) = some event.status ↔
      ¬ Mistyped srv.lib (exchanges (c.log i)).getLast?) := by
  have hrun := Machine.run_of_reaches hr i
  rw [hi] at hrun
  obtain ⟨r, hrun⟩ := chat_of_task hrun
  have hemitted := emitted_of_run hrun
  obtain ⟨base, hanswered⟩ := hemitted.answered
  refine ⟨?_, ?_⟩
  · have he := hemitted.emits
    rwa [after_emits] at he
  · have hs := shown_of_spoken hanswered.spoken (fun e he => ?_)
    · rwa [after_shown, after_last] at hs
    · rcases after_prior he with hnone | ⟨k, body, hmem⟩
      · cases hnone
      · exact replays_answers hstore hr i k body e hmem

/-- One request to a server that has just started, with what is left to chance. -/
def asked (srv : Server) (choose : Op → Chance) : Conf Op Ans World Unit (Option Event) :=
  (driver (fun _ _ _ => true) srv).play (fun _ _ _ _ => true) (fun _ _ => true) 200
    [.go () (fun _ => false) choose]
    (.start (plainWorld plainConfig) (fun _ => (Task.chat (plainRequest "")).run srv))

theorem asked_reached (srv : Server) (choose : Op → Chance) :
    (machine (fun _ _ _ => true) srv).Reaches Machine.anyMove
      (.start (plainWorld plainConfig) (fun _ => (Task.chat (plainRequest "")).run srv))
      (asked srv choose) :=
  Effect.Driver.play_reaches (fun _ _ _ _ _ => trivial) (fun _ _ _ => trivial) _ _ _

/-- The event of the request, once it has returned. -/
def askedEvent (srv : Server) (choose : Op → Chance) : Option Event :=
  ((asked srv choose).prog ()).result.bind id

theorem asked_returned {srv : Server} {choose : Op → Chance} {event : Event}
    (h : askedEvent srv choose = some event) : (asked srv choose).prog () = .ret (some event) := by
  obtain ⟨e, he, hid⟩ := Option.bind_eq_some_iff.mp h
  cases hid
  exact Prog.eq_ret_of_result he

def telling : Server := { plainServer with telemetry := true }

/-- A directory without files is honest. -/
theorem honest_new (c : Config) (now : Int) (policies : PolicyStore) :
    HonestStore (World.new c now policies ∅).idem := by
  intro name f e hf
  have hnone : (World.new c now policies ∅).idem.files.lookup name = none := by
    apply AList.lookup_eq_none.mpr
    intro hmem
    cases hmem
  rw [hnone] at hf
  cases hf

theorem plain_honest : HonestStore (plainWorld plainConfig).idem := honest_new _ _ _

theorem event_status_is_shown_status_iff_turned_away :
    ∃ event, askedEvent telling (smooth busy) = some event ∧ event.status = 503 ∧
      emits ((asked telling (smooth busy)).log ()) = [event] ∧
      (shown ((asked telling (smooth busy)).log ()) = some event.status ↔
        ¬ Mistyped plainLib (exchanges ((asked telling (smooth busy)).log ())).getLast?) := by
  have hstatus : (askedEvent telling (smooth busy)).map Event.status = some 503 := by decide +kernel
  obtain ⟨event, he, hs⟩ := Option.map_eq_some_iff.mp hstatus
  exact ⟨event, he, hs, event_status_is_shown_status_iff _ telling _ _ plain_honest _
    (asked_reached telling (smooth busy)) () event (asked_returned he)⟩

/-- A request for a stream. -/
def streamedBody : Bytes :=
  ascii ("\x7b\"model\":\"preferred\",\"stream\":true,\"messages\":" ++
    "[\x7b\"role\":\"user\",\"content\":\"hi\"\x7d]\x7d")

/-- The request asks for a stream, and its provider answers with something else. -/
def mistyping : Op → Chance
  | .readBody => .body (some streamedBody)
  | .send _ => .outcome (.response 200 "" "application/json" ⟨[], false⟩)
  | o => smooth busy o

theorem mistyped_stream_told_as_200 :
    ∃ event, askedEvent telling mistyping = some event ∧
      emits ((asked telling mistyping).log ()) = [event] ∧ event.status = 200 ∧
      shown ((asked telling mistyping).log ()) = some 502 := by
  have hfacts : (askedEvent telling mistyping).any (fun event =>
      decide (emits ((asked telling mistyping).log ()) = [event]) && decide (event.status = 200) &&
        decide (shown ((asked telling mistyping).log ()) = some 502)) = true := by decide +kernel
  cases he : askedEvent telling mistyping with
  | none =>
    rw [he] at hfacts
    cases hfacts
  | some event =>
    rw [he] at hfacts
    simp only [Option.any_some, Bool.and_eq_true, decide_eq_true_eq] at hfacts
    exact ⟨event, rfl, hfacts.1.1, hfacts.1.2, hfacts.2⟩

/-- The answer to the last attempt of a request. -/
def finalAnswer (event : Event) (log : List (Effect.Event Op Ans)) : Option (Upstream × Outcome) :=
  lastAnswer event.status (exchanges log).reverse

/-- An answer without text, cut short by its length, that states a usage. -/
def emptyWithUsage : Outcome :=
  .response 200 "" "application/json" ⟨ascii ("\x7b\"choices\":[\x7b\"index\":0,\"message\":" ++
    "\x7b\"content\":\"\"\x7d,\"finish_reason\":\"length\"\x7d]," ++
    "\"usage\":\x7b\"prompt_tokens\":5,\"completion_tokens\":7\x7d\x7d"), false⟩

/-- OpenAI's answer is empty, and Gemini turns the request away. -/
def emptyThenBusy : Op → Chance
  | .send u => .outcome (if u.route.provider = "openai" then emptyWithUsage else busy)
  | o => smooth busy o

end Switchboard.Proofs.Events
