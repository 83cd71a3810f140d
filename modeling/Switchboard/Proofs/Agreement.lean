import Switchboard.Gateway.Metrics
import Switchboard.Proofs.Paging

namespace Switchboard.Proofs.Agreement
open Text Gateway Frame Ledger Bookkeeping Events NoReplay

/-- What an operation tells of a route. -/
def observedOf : Effect.Event Op Ans → Option RouteObservation
  | ⟨.tell (.observeRoute p m status ms u), _⟩ => some ⟨p, m, status, ms, u⟩
  | _ => none

/-- What `ObserveRoute` was called with. -/
def observations (log : List (Effect.Event Op Ans)) : List RouteObservation :=
  log.filterMap observedOf

def spanError (s : Span) : Option AttrValue := s.attributes.lookup "error.type"

theorem usage_attr_ne (u : TokenUsage) : ∀ a ∈ u.attrs, a.1 ≠ "error.type" := by
  intro a ha
  unfold TokenUsage.attrs at ha
  split at ha
  · cases ha
  · simp only [List.mem_append, List.mem_cons, List.mem_filter, List.not_mem_nil, or_false] at ha
    rcases ha with (rfl | rfl) | ⟨rfl | rfl | rfl, -⟩ <;> simp

/-- No other attribute is an error type. -/
theorem spanError_spanOf (e : Event) : spanError (spanOf e) =
    if 400 ≤ e.status ∨ e.streamFailed = true then some (.string e.errorType) else none := by
  simp only [spanError, spanOf]
  rw [List.lookup_append, List.lookup_eq_none_iff.mpr, Option.none_or]
  · by_cases hf : 400 ≤ e.status ∨ e.streamFailed = true
    · simp [hf, List.lookup]
    · simp [hf]
  · intro p hp
    simp only [List.mem_append, List.mem_ite_nil_right, List.mem_cons, List.not_mem_nil, or_false,
      List.mem_map] at hp
    rcases hp with ((((⟨-, rfl | rfl⟩ | rfl | rfl) | ⟨-, rfl⟩) | ⟨-, rfl⟩) | ⟨-, rfl⟩) | ⟨a, ha, rfl⟩
    all_goals try simp
    exact fun he => usage_attr_ne e.usage a ha he.symm

theorem observedOf_of_not_closing {e : Effect.Event Op Ans} (h : ¬ Closing e.op) :
    observedOf e = none ∧ rise .errors e = 0 := by
  obtain ⟨o, x⟩ := e
  cases o with
  | tell t =>
    cases t with
    | observeRoute p m status ms u => exact absurd trivial h
    | count m n =>
      cases m with
      | errors => exact absurd trivial h
      | _ => exact ⟨rfl, rfl⟩
    | _ => exact ⟨rfl, rfl⟩
  | _ => exact ⟨rfl, rfl⟩

theorem observations_of_not_closing {log : List (Effect.Event Op Ans)}
    (h : ∀ e ∈ log, ¬ Closing e.op) : observations log = [] ∧ risen .errors log = 0 := by
  constructor
  · rw [observations, List.filterMap_eq_nil_iff]
    exact fun e he => (observedOf_of_not_closing (h e he)).1
  · exact risen_eq_zero (fun e he => (observedOf_of_not_closing (h e he)).2)

/-- A request is measured with the status of its event, and counted as an error if its span
has one. -/
theorem measured_of_run {srv : Server} {r : Request} {log : List (Effect.Event Op Ans)}
    {event : Event} (h : (chat srv r).Run log (.ret event)) :
    (0 < event.attempts → ∃ ms, observations log =
      [⟨event.provider, event.model, event.status, ms, event.usage⟩]) ∧
    risen .errors log = if 400 ≤ event.status ∨ event.streamFailed = true then 1 else 0 := by
  obtain ⟨ended, pre, mid, t, t', t'', ms, c, rfl, hpre, hmid, -, -⟩ := ensures_chat srv r _ _ h
  obtain ⟨hpre, hprerise⟩ := observations_of_not_closing (fun e he => mild_not_closing (hpre e he))
  obtain ⟨hmid, hmidrise⟩ := observations_of_not_closing hmid
  simp only [observations, List.filterMap_append, risen_append] at hpre hmid ⊢
  rw [hpre, hmid, hprerise, hmidrise]
  refine ⟨fun ha => ⟨ms, ?_⟩, ?_⟩
  · simp only [closingLog, if_pos ha]
    split <;> split <;> split <;> rfl
  · simp [closingLog, apply_ite (risen .errors), rise]

/-- How a request is told to have failed, by what measures its route and by its span. -/
def Agree (c : RouteObservation) (s : Span) : Prop :=
  match spanError s with
  | none => c.key.errorType = ""
  | some v => c.key.errorType ≠ "" ∧ v = .string c.key.errorType

/-- Every request that reached a provider is measured once and raises the errors exactly if its
span has an error type; and the two agree about it exactly unless a stream broke after its 200. -/
theorem metrics_and_spans_agree_iff (srv : Server) (r : Request) (log : List (Effect.Event Op Ans))
    (event : Event) (h : (chat srv r).Run log (.ret event)) (ha : 0 < event.attempts) :
    ∃ c, observations log = [c] ∧
      (risen .errors log = if (spanError (spanOf event)).isSome then 1 else 0) ∧
      (Agree c (spanOf event) ↔ ¬ (event.streamFailed = true ∧ event.status < 400)) := by
  obtain ⟨hobserved, hrisen⟩ := measured_of_run h
  obtain ⟨ms, hc⟩ := hobserved ha
  refine ⟨_, hc, ?_, ?_⟩
  · rw [hrisen, spanError_spanOf]
    split <;> rfl
  · unfold Agree
    rw [spanError_spanOf]
    by_cases hf : 400 ≤ event.status
    · have hkey := Strings.itoa_ne event.status
      simp [RouteObservation.key, Event.errorType, hf, Int.not_lt.mpr hf, hkey]
    · cases hs : event.streamFailed <;> simp [RouteObservation.key, hf, hs]

/-- The answer breaks off after its first text. -/
def cutShort : Op → Chance
  | .readBody => .body (some streamedBody)
  | .send _ => .outcome (.response 200 "" "text/event-stream"
      ⟨ascii "data: \x7b\"choices\":[\x7b\"delta\":\x7b\"content\":\"hi\"\x7d\x7d]\x7d\n\n", false⟩)
  | o => smooth busy o

theorem metrics_and_spans_agree_iff_turned_away :
    ∃ event c, askedEvent telling (smooth busy) = some event ∧
      observations ((asked telling (smooth busy)).log ()) = [c] ∧
      (Agree c (spanOf event) ↔ ¬ (event.streamFailed = true ∧ event.status < 400)) := by
  have hattempts : (askedEvent telling (smooth busy)).any (fun e => decide (0 < e.attempts)) = true := by
    decide +kernel
  obtain ⟨event, he, ha⟩ := (Option.any_eq_true _ _).mp hattempts
  obtain ⟨r, hrun⟩ := Paging.asked_run he
  obtain ⟨c, hc, -, hagree⟩ :=
    metrics_and_spans_agree_iff telling r _ event hrun (by simpa using ha)
  exact ⟨event, c, he, hc, hagree⟩

/-- The route is measured without an error, and the span has one. -/
theorem broken_stream_measured_as_success :
    ∃ event c, askedEvent telling cutShort = some event ∧
      observations ((asked telling cutShort).log ()) = [c] ∧ c.key.errorType = "" ∧
      risen .errors ((asked telling cutShort).log ()) = 1 ∧
      spanError (spanOf event) = some (.string "stream_error") := by
  have hfacts : (askedEvent telling cutShort).any (fun event =>
      decide ((observations ((asked telling cutShort).log ())).map (·.key.errorType) = [""]) &&
        decide (risen .errors ((asked telling cutShort).log ()) = 1) &&
        decide (spanError (spanOf event) = some (.string "stream_error"))) = true := by decide +kernel
  obtain ⟨event, he, hfacts⟩ := (Option.any_eq_true _ _).mp hfacts
  simp only [Bool.and_eq_true, decide_eq_true_eq] at hfacts
  obtain ⟨⟨hobserved, hrisen⟩, hspan⟩ := hfacts
  obtain ⟨c, hc, htype⟩ := List.map_eq_singleton_iff.mp hobserved
  exact ⟨event, c, he, hc, htype, hrisen, hspan⟩

end Switchboard.Proofs.Agreement
