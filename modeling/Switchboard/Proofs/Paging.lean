import Switchboard.Proofs.Bookkeeping
import Switchboard.Proofs.Events

namespace Switchboard.Proofs.Paging
open Text Gateway Frame Ledger Bookkeeping Tally Events NoReplay
open Effect (Monitor Prog)

theorem closingLog_raises (srv : Server) (event : Event) (t t' t'' ms : Int) (r : CaptureRecord) :
    risen .emptyCompletionFailed (closingLog srv event t t' t'' ms r) = 0 := by
  apply risen_eq_zero
  intro e he
  simp only [closingLog, List.mem_append, List.mem_ite_nil_right, List.mem_cons, List.not_mem_nil,
    or_false] at he
  rcases he with rfl | ⟨-, rfl | rfl⟩ | ⟨-, rfl⟩ | ⟨-, rfl⟩ | ⟨-, rfl | rfl⟩ <;> rfl

theorem closingLog_endings (srv : Server) (event : Event) (t t' t'' ms : Int) (r : CaptureRecord) :
    endings (closingLog srv event t t' t'' ms r) = [] := by
  have hnone : exchanges (closingLog srv event t t' t'' ms r) = [] := by
    rw [exchanges, List.filterMap_eq_nil_iff]
    intro e he
    simp only [closingLog, List.mem_append, List.mem_ite_nil_right, List.mem_cons, List.not_mem_nil,
      or_false] at he
    rcases he with rfl | ⟨-, rfl | rfl⟩ | ⟨-, rfl⟩ | ⟨-, rfl⟩ | ⟨-, rfl | rfl⟩ <;> rfl
  rw [endings, hnone]
  rfl

/-- What a request comes to, from its whole log. -/
theorem booked_of_run {srv : Server} {r : Request} {log : List (Effect.Event Op Ans)} {event : Event}
    (h : (chat srv r).Run log (.ret event)) :
    Booked srv.lib event (risen .emptyCompletionFailed log) (endings log) := by
  obtain ⟨ended, pre, mid, t, t', t'', ms, c, rfl, hpre, hmid, hbooked, rfl⟩ :=
    ensures_chat srv r _ _ h
  rw [risen_append, risen_append, endings_append, endings_append, closingLog_raises,
    closingLog_endings, risen_eq_zero (fun e he => rise_of_mild (hpre e he)), endings,
    exchanges_of_mild hpre]
  simp only [List.filter_nil, List.nil_append, List.append_nil, Int.zero_add, Int.add_zero]
  exact ⟨hbooked.attempts, hbooked.raised⟩

/-- A client that was shown 503 got what the event says; a request that reached a provider
has shown it if the event says so. -/
theorem shown_unavailable {srv : Server} {r : Request} {log : List (Effect.Event Op Ans)}
    {event : Event} (h : (chat srv r).Run log (.ret event)) :
    (shown log = some 503 → event.status = 503) ∧
    (0 < event.attempts → event.status = 503 → shown log = some 503) := by
  obtain ⟨base, hanswered⟩ := (emitted_of_run h).answered
  have hspoken := hanswered.spoken
  have hshown : ((account srv {}).after {} log).shown = shown log := by rw [after_shown]; rfl
  rw [← hshown]
  unfold Spoken at hspoken
  split at hspoken
  · simp [hspoken.1, hspoken.2.1]
  · simp [hspoken.1, hspoken.2.1]
  · rename_i e _
    obtain ⟨hs, hreplayed, hshown, -⟩ := hspoken
    refine ⟨?_, fun ha => ?_⟩
    · rw [hshown, hs]
      split <;> simp
    · rcases hanswered.routed with hr | ⟨p, -, hf⟩
      · omega
      · rw [hf.replayed] at hreplayed
        cases hreplayed
  · rcases hspoken.2 with ⟨-, hs, hshown⟩ | ⟨-, hshown⟩
    · simp [hs, hshown]
    · simp [hshown]

/-- Some attempts of a request that was given up ended empty and others did not. -/
def Mixed (lib : Lib) (log : List (Effect.Event Op Ans)) : Prop :=
  shown log = some 503 ∧ (∃ x ∈ endings log, Emptied lib x) ∧ ∃ x ∈ endings log, ¬ Emptied lib x

/-- The counter rises by one or not at all, and exactly when the attempts of a request that was
given up were not mixed does it mean that all of them were empty. -/
theorem paging_counter_means_all_empty_iff (srv : Server) (r : Request)
    (log : List (Effect.Event Op Ans)) (event : Event) (h : (chat srv r).Run log (.ret event)) :
    (risen .emptyCompletionFailed log = 0 ∨ risen .emptyCompletionFailed log = 1) ∧
    (shown log = some 503 → 0 < event.attempts → event.attempts = (endings log).length) ∧
    ((risen .emptyCompletionFailed log = 1 ↔
        shown log = some 503 ∧ 0 < event.attempts ∧ ∀ x ∈ endings log, Emptied srv.lib x) ↔
      ¬ Mixed srv.lib log) := by
  obtain ⟨hcount, hraised⟩ := booked_of_run h
  obtain ⟨hsound, hcomplete⟩ := shown_unavailable h
  have hzero : ({} : Event).attempts = 0 := rfl
  simp only [hzero, Int.zero_add, ne_eq, not_true_eq_false, false_or] at hcount hraised
  refine ⟨?_, fun hs _ => hcount (hsound hs), ?_⟩
  · rcases hraised with h1 | h0
    · exact .inr h1.1
    · exact .inl h0.1
  by_cases hs : shown log = some 503
  · have hlen := hcount (hsound hs)
    have hpos : 0 < event.attempts ↔ ∃ x, x ∈ endings log := by
      rw [hlen, Int.natCast_pos, List.length_pos_iff_exists_mem]
    have hone : risen .emptyCompletionFailed log = 1 ↔ ∃ x ∈ endings log, Emptied srv.lib x := by
      have := hsound hs
      grind
    rw [hone, hpos, Mixed]
    simp only [hs, true_and]
    grind
  · have hnone : risen .emptyCompletionFailed log ≠ 1 := by
      intro hone
      rcases hraised with ⟨-, hstatus, x, hx, -⟩ | ⟨hzero, -⟩
      · have hlen := hcount hstatus
        have := List.length_pos_of_mem hx
        exact hs (hcomplete (by omega) hstatus)
      · omega
    simp [hnone, hs, Mixed]

theorem asked_run {srv : Server} {choose : Op → Chance} {event : Event}
    (h : askedEvent srv choose = some event) :
    ∃ r, (chat srv r).Run ((asked srv choose).log ()) (.ret event) := by
  have hrun := Effect.Machine.run_of_reaches (asked_reached srv choose) ()
  rw [asked_returned h] at hrun
  exact chat_of_task hrun

theorem paging_counter_means_all_empty_iff_turned_away :
    ∃ event, askedEvent telling (smooth busy) = some event ∧
      ((risen .emptyCompletionFailed ((asked telling (smooth busy)).log ()) = 1 ↔
          shown ((asked telling (smooth busy)).log ()) = some 503 ∧ 0 < event.attempts ∧
            ∀ x ∈ endings ((asked telling (smooth busy)).log ()), Emptied plainLib x) ↔
        ¬ Mixed plainLib ((asked telling (smooth busy)).log ())) := by
  have hsome : (askedEvent telling (smooth busy)).isSome = true := by decide +kernel
  obtain ⟨event, he⟩ := Option.isSome_iff_exists.mp hsome
  obtain ⟨r, hrun⟩ := asked_run he
  exact ⟨event, he, (paging_counter_means_all_empty_iff telling r _ event hrun).2.2⟩

/-- One provider answered without text and the other turned the request away. -/
theorem turned_away_after_empty_pages :
    shown ((asked telling emptyThenBusy).log ()) = some 503 ∧
    risen .emptyCompletionFailed ((asked telling emptyThenBusy).log ()) = 1 ∧
    ∃ u, (u, busy) ∈ endings ((asked telling emptyThenBusy).log ()) ∧
      ¬ Emptied plainLib (u, busy) := by
  have hfacts : shown ((asked telling emptyThenBusy).log ()) = some 503 ∧
      risen .emptyCompletionFailed ((asked telling emptyThenBusy).log ()) = 1 ∧
      busy ∈ (endings ((asked telling emptyThenBusy).log ())).map Prod.snd := by decide +kernel
  obtain ⟨hshown, hrisen, hbusy⟩ := hfacts
  obtain ⟨⟨u, o⟩, hmem, rfl⟩ := List.mem_map.mp hbusy
  refine ⟨hshown, hrisen, u, hmem, fun he => ?_⟩
  exact absurd he.1 (by decide)

end Switchboard.Proofs.Paging
