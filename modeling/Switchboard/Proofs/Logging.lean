import Switchboard.Gateway.Logging

namespace Switchboard.Proofs.Logging
open Text Data Gateway AsyncLogWriter
open Effect (Prog Monitor Machine Conf)

/-- How far a call has come. -/
inductive Stage where
  | idle
  | loaded (closed : Bool)
  | queued
  | refused
  | dropped
  | panicked
  | swapped (won : Bool)
  | shut
  | waited
deriving DecidableEq, Repr

section
variable {ι : Type}

def Stage.next : Stage → (o : LogOp ι) → LogAns o → Stage
  | _, .loadClosed, closed => .loaded closed
  | _, .trySend _ _, .sent => .queued
  | _, .trySend _ _, .full => .refused
  | _, .trySend _ _, .panicked => .panicked
  | _, .addDropped, _ => .dropped
  | _, .compareAndSwap, won => .swapped won
  | _, .closeQueue, true => .shut
  | _, .closeQueue, false => .panicked
  | _, .waitDrained, _ => .waited

/-- How far a call has come by what it has done. -/
def stage (log : List (Effect.Event (LogOp ι) LogAns)) : Stage :=
  log.foldl (fun s e => s.next e.op e.ans) .idle

/-- A call, and how far it has come. -/
structure Desk (ι : Type) where
  who : ι
  call : LogCall
  stage : Stage := .idle

/-- The order of a call's steps. -/
def desk : Monitor (LogOp ι) LogAns (Desk ι) where
  may _ _ _ := True
  ok d
    | .loadClosed => d.stage = .idle
    | .trySend i b => d.stage = .loaded false ∧ d.who = i ∧ d.call = .write b
    | .addDropped => d.stage = .loaded true ∨ d.stage = .refused
    | .compareAndSwap => d.stage = .idle
    | .closeQueue => d.stage = .swapped true
    | .waitDrained => d.stage = .swapped false ∨ d.stage = .shut
  next d o x := { d with stage := d.stage.next o x }

/-- How far a call has come when it ends. -/
def Finished (r : LogEnd) (d : Desk ι) : Prop :=
  match r, d.call with
  | .returned, .write _ => d.stage = .queued ∨ d.stage = .dropped
  | .returned, .close => d.stage = .waited
  | .panicked, _ => d.stage = .panicked

theorem wp_prog (i : ι) (call : LogCall) :
    desk.wp Finished (call.prog i) { who := i, call := call } := by
  cases call with
  | write b =>
    refine ⟨rfl, fun closed _ => ?_⟩
    cases closed with
    | true => exact ⟨.inl rfl, fun _ _ => .inr rfl⟩
    | false =>
      refine ⟨⟨rfl, rfl, rfl⟩, fun outcome _ => ?_⟩
      cases outcome with
      | sent => exact .inl rfl
      | full => exact ⟨.inr rfl, fun _ _ => .inr rfl⟩
      | panicked => exact rfl
  | close =>
    refine ⟨rfl, fun won _ => ?_⟩
    cases won with
    | false => exact ⟨.inl rfl, fun _ _ => rfl⟩
    | true =>
      refine ⟨rfl, fun closed _ => ?_⟩
      cases closed with
      | true => exact ⟨.inr rfl, fun _ _ => rfl⟩
      | false => exact rfl

theorem after_desk (d : Desk ι) (log : List (Effect.Event (LogOp ι) LogAns)) :
    desk.after d log = { d with stage := log.foldl (fun s e => s.next e.op e.ans) d.stage } := by
  induction log generalizing d with
  | nil => rfl
  | cons e log ih => exact ih _

end

section
variable {ι : Type}

/-- A call that has loaded the flag as false goes on to send. -/
theorem sends_of_loaded {p : Prog (LogOp ι) LogAns LogEnd} {d : Desk ι} (h : desk.wp Finished p d)
    (hd : d.stage = .loaded false) : ∃ b k, p = .op (.trySend d.who b) k := by
  cases p with
  | ret r =>
    obtain ⟨who, call, stage⟩ := d
    dsimp only at hd
    subst hd
    cases r with
    | returned =>
      cases call with
      | write b => rcases h with h | h <;> cases h
      | close => cases h
    | panicked => cases h
  | op o k =>
    have hok := h.1
    cases o with
    | trySend j b =>
      obtain rfl : d.who = j := hok.2.1
      exact ⟨b, k, rfl⟩
    | loadClosed => cases hd.symm.trans hok
    | addDropped => rcases hok with hok | hok <;> cases hd.symm.trans hok
    | compareAndSwap => cases hd.symm.trans hok
    | closeQueue => cases hd.symm.trans hok
    | waitDrained => rcases hok with hok | hok <;> cases hd.symm.trans hok

/-- A call that has panicked is over. -/
theorem over_of_panicked {p : Prog (LogOp ι) LogAns LogEnd} {d : Desk ι} (h : desk.wp Finished p d)
    (hd : d.stage = .panicked) : p = .ret .panicked := by
  cases p with
  | ret r =>
    obtain ⟨who, call, stage⟩ := d
    dsimp only at hd
    subst hd
    cases r with
    | returned =>
      cases call with
      | write b => rcases h with h | h <;> cases h
      | close => cases h
    | panicked => rfl
  | op o k =>
    have hok := h.1
    cases o with
    | trySend j b => cases hd.symm.trans hok.1
    | loadClosed => cases hd.symm.trans hok
    | addDropped => rcases hok with hok | hok <;> cases hd.symm.trans hok
    | compareAndSwap => cases hd.symm.trans hok
    | closeQueue => cases hd.symm.trans hok
    | waitDrained => rcases hok with hok | hok <;> cases hd.symm.trans hok

theorem stage_snoc (log : List (Effect.Event (LogOp ι) LogAns)) (e : Effect.Event (LogOp ι) LogAns) :
    stage (log ++ [e]) = (stage log).next e.op e.ans := by
  rw [stage, List.foldl_append]
  rfl

/-- Only one operation closes the channel. -/
theorem perform_closed {w w' : AsyncLogWriter ι} {o : LogOp ι} {x : LogAns o}
    (hp : w.perform o = some (x, w')) (ho : o ≠ .closeQueue) : w'.queue.closed = w.queue.closed := by
  cases o with
  | closeQueue => exact absurd rfl ho
  | trySend j b =>
    cases hsend : w.queue.trySend logQueue (j, b) with
    | mk outcome queue =>
      rw [perform, hsend] at hp
      obtain ⟨-, rfl⟩ := Prod.mk.inj (Option.some.inj hp)
      rcases Channel.trySend_cases hsend with ⟨-, -, rfl⟩ | ⟨-, -, rfl⟩ | ⟨-, -, rfl⟩
      all_goals rfl
  | waitDrained =>
    rw [perform] at hp
    split at hp
    · obtain ⟨-, rfl⟩ := Prod.mk.inj (Option.some.inj hp)
      rfl
    · cases hp
  | loadClosed =>
    obtain ⟨-, rfl⟩ := Prod.mk.inj (Option.some.inj hp)
    rfl
  | addDropped =>
    obtain ⟨-, rfl⟩ := Prod.mk.inj (Option.some.inj hp)
    rfl
  | compareAndSwap =>
    obtain ⟨-, rfl⟩ := Prod.mk.inj (Option.some.inj hp)
    rfl

end

/-- The record that the draining goroutine has taken from the queue. -/
def held {ι : Type} : Drainer ι → List (ι × Bytes)
  | .holding record => [record]
  | _ => []

/-- What the draining goroutine has still to count. -/
def owed {ι : Type} : Drainer ι → Int
  | .failed => 1
  | _ => 0

/-- All records that have been queued. -/
def records {ι : Type} (w : AsyncLogWriter ι) : List (ι × Bytes) :=
  w.handed.map Prod.fst ++ (held w.drainer ++ w.queue.buffer)

/-- The records that could not be written. -/
def failures {ι : Type} (w : AsyncLogWriter ι) : List ((ι × Bytes) × Bool) :=
  w.handed.filter (fun h => !h.2)

/-- What the calls that close the writer go by. -/
structure Gate {ι : Type} (w : AsyncLogWriter ι) (st : ι → Stage) : Prop where
  flag : w.queue.closed = true → w.closed = true
  winner : ∀ i, st i = .swapped true → w.closed = true ∧ w.queue.closed = false
  unique : ∀ i j, st i = .swapped true → st j = .swapped true → j = i
  panicked : ∀ i, st i = .panicked → w.queue.closed = true
  done : w.drainer = .done → w.queue.closed = true ∧ w.queue.buffer = []
  waited : ∀ i, st i = .waited → w.drainer = .done

/-- What has become of the records. -/
structure Books {ι : Type} (calls : ι → LogCall) (w : AsyncLogWriter ι) (st : ι → Stage) : Prop where
  once : ((records w).map Prod.fst).Nodup
  queued : ∀ i, i ∈ (records w).map Prod.fst ↔ st i = .queued
  record : ∀ x ∈ records w, calls x.1 = .write x.2
  counted : ∃ refused : Finset ι, (∀ i, i ∈ refused ↔ st i = .dropped) ∧
    w.dropped + owed w.drainer = refused.card + (failures w).length

/-- The stages that `Gate` speaks of. -/
def gated : Stage → Option Stage
  | .swapped true => some (.swapped true)
  | .panicked => some .panicked
  | .waited => some .waited
  | _ => none

/-- The stages that `Books` speaks of. -/
def booked : Stage → Option Bool
  | .queued => some true
  | .dropped => some false
  | _ => none

section
variable {ι : Type} {calls : ι → LogCall} {w w' : AsyncLogWriter ι} {st st' : ι → Stage}

theorem gated_iff {s t : Stage} (ht : gated t = some t) : s = t ↔ gated s = gated t := by
  constructor
  · rintro rfl
    rfl
  · intro h
    rw [ht] at h
    cases s with
    | swapped won =>
      cases won with
      | true => exact Option.some.inj h
      | false => cases h
    | panicked => exact Option.some.inj h
    | waited => exact Option.some.inj h
    | _ => cases h

theorem Gate.congr (h : Gate w st) (hst : ∀ j, gated (st' j) = gated (st j)) : Gate w st' := by
  have hsame : ∀ t : Stage, gated t = some t → ∀ j, st' j = t → st j = t := by
    intro t ht j hj
    rw [gated_iff ht, ← hst, hj]
  constructor
  · exact h.flag
  · exact fun i hi => h.winner i (hsame _ rfl i hi)
  · exact fun i j hi hj => h.unique i j (hsame _ rfl i hi) (hsame _ rfl j hj)
  · exact fun i hi => h.panicked i (hsame _ rfl i hi)
  · exact h.done
  · exact fun i hi => h.waited i (hsame _ rfl i hi)

theorem booked_queued (s : Stage) : s = .queued ↔ booked s = some true := by
  cases s <;> simp [booked]

theorem booked_dropped (s : Stage) : s = .dropped ↔ booked s = some false := by
  cases s <;> simp [booked]

theorem unbooked {s : Stage} (h : booked s = none) : s ≠ .queued ∧ s ≠ .dropped := by
  constructor
  · rintro rfl
    cases h
  · rintro rfl
    cases h

theorem Books.congr (h : Books calls w st) (hst : ∀ j, booked (st' j) = booked (st j)) :
    Books calls w st' := by
  obtain ⟨refused, hmem, hcount⟩ := h.counted
  refine ⟨h.once, fun i => ?_, h.record, refused, fun i => ?_, hcount⟩
  · rw [h.queued, booked_queued, booked_queued, hst]
  · rw [hmem, booked_dropped, booked_dropped, hst]

theorem drain_cases {d : Drain} (hd : w.drain d = some w') :
    (∃ record rest, w.drainer = .ranging ∧ w.queue.receive = .got record rest ∧
      w' = { w with queue := rest, drainer := .holding record }) ∨
    (w.drainer = .ranging ∧ w.queue.receive = .ended ∧ w' = { w with drainer := .done }) ∨
    (∃ record ok, w.drainer = .holding record ∧ w' = { w with
      handed := w.handed ++ [(record, ok)], drainer := if ok then .ranging else .failed }) ∨
    (w.drainer = .failed ∧ w' = { w with dropped := w.dropped + 1, drainer := .ranging }) := by
  cases d with
  | receive =>
    rw [AsyncLogWriter.drain] at hd
    split at hd
    · rename_i hat
      split at hd
      · rename_i record rest hgot
        exact .inl ⟨record, rest, hat, hgot, (Option.some.inj hd).symm⟩
      · rename_i hended
        exact .inr (.inl ⟨hat, hended, (Option.some.inj hd).symm⟩)
      · cases hd
    · cases hd
  | write ok =>
    rw [AsyncLogWriter.drain] at hd
    split at hd
    · rename_i record hat
      exact .inr (.inr (.inl ⟨record, ok, hat, (Option.some.inj hd).symm⟩))
    · cases hd
  | count =>
    rw [AsyncLogWriter.drain] at hd
    split at hd
    · rename_i hat
      exact .inr (.inr (.inr ⟨hat, (Option.some.inj hd).symm⟩))
    · cases hd

theorem drain_closed {d : Drain} (hd : w.drain d = some w') : w'.queue.closed = w.queue.closed := by
  rcases drain_cases hd with ⟨_, _, _, hgot, rfl⟩ | ⟨_, _, rfl⟩ | ⟨_, _, _, rfl⟩ | ⟨_, rfl⟩
  · exact (Channel.receive_got hgot).2
  · rfl
  · rfl
  · rfl

/-- The draining goroutine makes a step. -/
theorem Gate.drain (h : Gate w st) {d : Drain} (hd : w.drain d = some w') : Gate w' st := by
  have hnone : w.drainer ≠ .done → ∀ i, st i = .waited → w'.drainer = .done :=
    fun hne i hi => absurd (h.waited i hi) hne
  rcases drain_cases hd with ⟨record, rest, hat, hgot, rfl⟩ | ⟨hat, hended, rfl⟩ |
    ⟨record, ok, hat, rfl⟩ | ⟨hat, rfl⟩
  · have hclosed := (Channel.receive_got hgot).2
    refine ⟨fun hc => h.flag (hclosed.symm.trans hc), fun i hi => ?_, h.unique, fun i hi => ?_, nofun,
      hnone (by simp [hat])⟩
    · exact ⟨(h.winner i hi).1, hclosed.trans (h.winner i hi).2⟩
    · exact hclosed.trans (h.panicked i hi)
  · exact ⟨h.flag, h.winner, h.unique, h.panicked,
      fun _ => (Channel.receive_ended hended).symm, fun _ _ => rfl⟩
  · refine ⟨h.flag, h.winner, h.unique, h.panicked, fun hdone => ?_, hnone (by simp [hat])⟩
    cases ok <;> cases hdone
  · exact ⟨h.flag, h.winner, h.unique, h.panicked, nofun, hnone (by simp [hat])⟩

theorem Gate.enqueue (h : Gate w st) {x : ι × Bytes} (hopen : w.queue.closed = false) :
    Gate { w with queue := { w.queue with buffer := w.queue.buffer ++ [x] } } st := by
  refine ⟨h.flag, h.winner, h.unique, h.panicked, fun hd => ?_, h.waited⟩
  have hclosed := (h.done hd).1
  rw [hopen] at hclosed
  cases hclosed

/-- A step that keeps the records and the balance. -/
theorem Books.keep (h : Books calls w st) (hrecords : records w' = records w)
    (hbalance : w'.dropped + owed w'.drainer - (failures w').length =
      w.dropped + owed w.drainer - (failures w).length) : Books calls w' st := by
  obtain ⟨refused, hmem, hcount⟩ := h.counted
  refine ⟨?_, ?_, ?_, refused, hmem, by omega⟩
  · rw [hrecords]
    exact h.once
  · rw [hrecords]
    exact h.queued
  · rw [hrecords]
    exact h.record

theorem Books.drain (h : Books calls w st) {d : Drain} (hd : w.drain d = some w') :
    Books calls w' st := by
  rcases drain_cases hd with ⟨record, rest, hat, hgot, rfl⟩ | ⟨hat, hended, rfl⟩ |
    ⟨record, ok, hat, rfl⟩ | ⟨hat, rfl⟩
  · have hbuffer := (Channel.receive_got hgot).1
    exact h.keep (by simp [records, hat, held, hbuffer]) (by simp [hat, owed, failures])
  · exact h.keep (by simp [records, hat, held]) (by simp [hat, owed, failures])
  · cases ok with
    | true => exact h.keep (by simp [records, hat, held]) (by simp [hat, owed, failures])
    | false =>
      refine h.keep (by simp [records, hat, held]) ?_
      have hone : (List.filter (fun h => !h.2) [(record, false)]).length = 1 := rfl
      simp only [hat, failures, List.filter_append, List.length_append, hone]
      show w.dropped + 1 - _ = w.dropped + 0 - _
      omega
  · exact h.keep (by simp [records, hat, held]) (by simp [hat, owed, failures])

end

section
variable {ι : Type} [DecidableEq ι] {calls : ι → LogCall} {w w' : AsyncLogWriter ι} {st : ι → Stage}
  {i : ι} {s : Stage}

theorem update_same {β : Type} {f : Stage → β} (h : f s = f (st i)) (j : ι) :
    f (Function.update st i s j) = f (st j) := by
  by_cases hj : j = i
  · subst hj
    simpa using h
  · simp [hj]

/-- Everybody but `i` is where they were. -/
theorem of_update {t : Stage} {j : ι} (h : Function.update st i s j = t) (hs : s ≠ t) : st j = t := by
  by_cases hj : j = i
  · subst hj
    simp [hs] at h
  · simpa [hj] using h

theorem Gate.swap (h : Gate w st) (hopen : w.closed = false) :
    Gate { w with closed := true } (Function.update st i (.swapped true)) := by
  have hqueue : w.queue.closed = false := by
    by_contra hc
    simp [h.flag (by simpa using hc)] at hopen
  have hnone : ∀ j, Function.update st i (.swapped true) j = .swapped true → j = i := by
    intro j hj
    by_contra hne
    rw [Function.update_of_ne hne] at hj
    simp [(h.winner j hj).1] at hopen
  constructor
  · exact fun _ => rfl
  · exact fun _ _ => ⟨rfl, hqueue⟩
  · intro j k hj hk
    rw [hnone j hj, hnone k hk]
  · exact fun j hj => h.panicked j (of_update hj nofun)
  · exact h.done
  · exact fun j hj => h.waited j (of_update hj nofun)

theorem Gate.shut (h : Gate w st) (hi : st i = .swapped true) :
    Gate { w with queue := { w.queue with closed := true } } (Function.update st i .shut) := by
  have hnone : ∀ j, Function.update st i .shut j ≠ .swapped true := by
    intro j hj
    have hone := h.unique i j hi (of_update hj nofun)
    subst hone
    simp at hj
  constructor
  · exact fun _ => (h.winner i hi).1
  · exact fun j hj => absurd hj (hnone j)
  · exact fun j k hj => absurd hj (hnone j)
  · exact fun _ _ => rfl
  · intro hd
    have hclosed := (h.done hd).1
    rw [(h.winner i hi).2] at hclosed
    cases hclosed
  · exact fun j hj => h.waited j (of_update hj nofun)

theorem Gate.wait (h : Gate w st) (hdone : w.drainer = .done) :
    Gate w (Function.update st i .waited) := by
  constructor
  · exact h.flag
  · exact fun j hj => h.winner j (of_update hj nofun)
  · exact fun j k hj hk => h.unique j k (of_update hj nofun) (of_update hk nofun)
  · exact fun j hj => h.panicked j (of_update hj nofun)
  · exact h.done
  · exact fun _ _ => hdone

theorem Gate.panic (h : Gate w st) (hclosed : w.queue.closed = true) :
    Gate w (Function.update st i .panicked) := by
  constructor
  · exact h.flag
  · exact fun j hj => h.winner j (of_update hj nofun)
  · exact fun j k hj hk => h.unique j k (of_update hj nofun) (of_update hk nofun)
  · exact fun _ _ => hclosed
  · exact h.done
  · exact fun j hj => h.waited j (of_update hj nofun)

/-- The record is on its way to the output. -/
theorem Books.enqueue (h : Books calls w st) {b : Bytes} (hi : booked (st i) = none)
    (hcall : calls i = .write b) :
    Books calls { w with queue := { w.queue with buffer := w.queue.buffer ++ [(i, b)] } }
      (Function.update st i .queued) := by
  have hrecords : records { w with queue := { w.queue with buffer := w.queue.buffer ++ [(i, b)] } } =
      records w ++ [(i, b)] := by
    simp [records]
  have hnot : i ∉ (records w).map Prod.fst := by
    rw [h.queued]
    exact (unbooked hi).1
  constructor
  · rw [hrecords, List.map_append]
    exact List.nodup_append.mpr ⟨h.once, by simp, by simpa using fun a ha => ne_of_mem_of_not_mem ha hnot⟩
  · intro j
    rw [hrecords, List.map_append, List.mem_append, h.queued]
    by_cases hj : j = i
    · subst hj
      simp
    · simp [hj]
  · rw [hrecords]
    intro x hx
    rcases List.mem_append.mp hx with hx | hx
    · exact h.record x hx
    · rw [List.mem_singleton.mp hx]
      exact hcall
  · obtain ⟨refused, hmem, hcount⟩ := h.counted
    refine ⟨refused, fun j => ?_, hcount⟩
    rw [hmem]
    by_cases hj : j = i
    · subst hj
      simp [(unbooked hi).2]
    · simp [hj]

/-- The record is lost, and counted. -/
theorem Books.discard (h : Books calls w st) (hi : booked (st i) = none) :
    Books calls { w with dropped := w.dropped + 1 } (Function.update st i .dropped) := by
  obtain ⟨refused, hmem, hcount⟩ := h.counted
  have hnot : i ∉ refused := by
    rw [hmem]
    exact (unbooked hi).2
  refine ⟨h.once, fun j => ?_, h.record, insert i refused, fun j => ?_, ?_⟩
  · refine (h.queued j).trans ?_
    by_cases hj : j = i
    · subst hj
      simp [(unbooked hi).1]
    · simp [hj]
  · rw [Finset.mem_insert, hmem]
    by_cases hj : j = i
    · subst hj
      simp
    · simp [hj]
  · have hbalance : w.dropped + 1 + owed w.drainer = ((refused.card + 1 : Nat) : Int) + (failures w).length := by
      omega
    rw [Finset.card_insert_of_notMem hnot]
    exact hbalance

/-- A call makes a step. -/
theorem ledger_perform (hg : Gate w st) (hb : Books calls w st) {o : LogOp ι} {x : LogAns o}
    (hok : desk.ok { who := i, call := calls i, stage := st i } o) (hp : w.perform o = some (x, w')) :
    Gate w' (Function.update st i ((st i).next o x)) ∧
      Books calls w' (Function.update st i ((st i).next o x)) := by
  cases o with
  | loadClosed =>
    obtain ⟨rfl, rfl⟩ := Prod.mk.inj (Option.some.inj hp)
    have hi : st i = .idle := hok
    exact ⟨hg.congr (update_same (by rw [hi]; rfl)), hb.congr (update_same (by rw [hi]; rfl))⟩
  | trySend j b =>
    have hi : st i = .loaded false := hok.1
    have hij : i = j := hok.2.1
    have hcall : calls i = .write b := hok.2.2
    subst hij
    cases hsend : w.queue.trySend logQueue (i, b) with
    | mk outcome queue =>
      rw [perform, hsend] at hp
      obtain ⟨rfl, rfl⟩ := Prod.mk.inj (Option.some.inj hp)
      rcases Channel.trySend_cases hsend with ⟨rfl, hclosed, rfl⟩ | ⟨rfl, hopen, rfl⟩ | ⟨rfl, hopen, rfl⟩
      · exact ⟨hg.panic hclosed, hb.congr (update_same (by rw [hi]; rfl))⟩
      · exact ⟨(hg.enqueue hopen).congr (update_same (by rw [hi]; rfl)),
          hb.enqueue (by rw [hi]; rfl) hcall⟩
      · exact ⟨hg.congr (update_same (by rw [hi]; rfl)), hb.congr (update_same (by rw [hi]; rfl))⟩
  | addDropped =>
    obtain ⟨-, rfl⟩ := Prod.mk.inj (Option.some.inj hp)
    have hkept : Gate { w with dropped := w.dropped + 1 } st :=
      ⟨hg.flag, hg.winner, hg.unique, hg.panicked, hg.done, hg.waited⟩
    rcases hok with hi | hi
    · dsimp only at hi
      exact ⟨hkept.congr (update_same (by rw [hi]; rfl)), hb.discard (by rw [hi]; rfl)⟩
    · dsimp only at hi
      exact ⟨hkept.congr (update_same (by rw [hi]; rfl)), hb.discard (by rw [hi]; rfl)⟩
  | compareAndSwap =>
    obtain ⟨rfl, rfl⟩ := Prod.mk.inj (Option.some.inj hp)
    have hi : st i = .idle := hok
    have hbooks : Books calls { w with closed := true } st := hb.keep rfl rfl
    cases hc : w.closed with
    | false => exact ⟨hg.swap hc, hbooks.congr (update_same (by rw [hi]; rfl))⟩
    | true =>
      have hkept : Gate { w with closed := true } st :=
        ⟨fun _ => rfl, fun j hj => ⟨rfl, (hg.winner j hj).2⟩, hg.unique, hg.panicked, hg.done, hg.waited⟩
      exact ⟨hkept.congr (update_same (by rw [hi]; rfl)), hbooks.congr (update_same (by rw [hi]; rfl))⟩
  | closeQueue =>
    have hi : st i = .swapped true := hok
    have hopen := (hg.winner i hi).2
    have hclose : w.queue.close = some { w.queue with closed := true } := by
      simp [Channel.close, hopen]
    rw [perform, hclose] at hp
    obtain ⟨rfl, rfl⟩ := Prod.mk.inj (Option.some.inj hp)
    have hbooks : Books calls { w with queue := { w.queue with closed := true } } st := hb.keep rfl rfl
    exact ⟨hg.shut hi, hbooks.congr (update_same (by rw [hi]; rfl))⟩
  | waitDrained =>
    rw [perform] at hp
    split at hp
    · rename_i hdone
      obtain ⟨-, rfl⟩ := Prod.mk.inj (Option.some.inj hp)
      rcases hok with hi | hi
      · dsimp only at hi
        exact ⟨hg.wait hdone, hb.congr (update_same (by rw [hi]; rfl))⟩
      · dsimp only at hi
        exact ⟨hg.wait hdone, hb.congr (update_same (by rw [hi]; rfl))⟩
    · cases hp

end

section
variable {ι : Type} [DecidableEq ι]

/-- The calls before any of them has begun. -/
def opened (calls : ι → LogCall) : Conf (LogOp ι) LogAns (AsyncLogWriter ι) ι LogEnd :=
  .start {} (fun i => (calls i).prog i)

/-- What holds throughout. -/
structure Sound (calls : ι → LogCall) (c : Conf (LogOp ι) LogAns (AsyncLogWriter ι) ι LogEnd) :
    Prop where
  gate : Gate c.state (fun i => stage (c.log i))
  books : Books calls c.state (fun i => stage (c.log i))
  keeps : ∀ i, desk.wp Finished (c.prog i) { who := i, call := calls i, stage := stage (c.log i) }

theorem sound_of_reaches {calls : ι → LogCall} {c : Conf (LogOp ι) LogAns (AsyncLogWriter ι) ι LogEnd}
    (hr : logging.machine.Reaches Machine.anyMove (opened calls) c) : Sound calls c := by
  have hafter : ∀ (i : ι) (log : List (Effect.Event (LogOp ι) LogAns)),
      desk.after { who := i, call := calls i } log = { who := i, call := calls i, stage := stage log } :=
    fun i log => after_desk _ log
  have hinv := Machine.invariant (G := desk) (Q := fun _ => Finished)
    (I := fun w g => (∀ i, (g i).who = i ∧ (g i).call = calls i) ∧
      Gate w (fun i => (g i).stage) ∧ Books calls w (fun i => (g i).stage))
    (g := fun i => { who := i, call := calls i }) (fun i => wp_prog i (calls i)) ?_ ?_ ?_ hr
  · simp only [hafter] at hinv
    exact ⟨hinv.1.2.1, hinv.1.2.2, hinv.2⟩
  · refine ⟨fun i => ⟨rfl, rfl⟩, ⟨nofun, nofun, nofun, nofun, nofun, nofun⟩, ?_⟩
    exact ⟨by simp [records, held], by simp [records, held], by simp [records, held], ∅, by simp, rfl⟩
  · intro c w' _ ⟨hwho, hgate, hbooks⟩ ⟨d, hd⟩ _
    exact ⟨hwho, hgate.drain hd, hbooks.drain hd⟩
  · intro c i o x w' _ ⟨hwho, hgate, hbooks⟩ hok ⟨_, hp⟩ _
    simp only [hafter] at hgate hbooks hok ⊢
    have hstages : (fun j => (Function.update
        (fun j => (⟨j, calls j, stage (c.log j)⟩ : Desk ι)) i
        (desk.next ⟨i, calls i, stage (c.log i)⟩ o x) j).stage) =
        Function.update (fun j => stage (c.log j)) i ((stage (c.log i)).next o x) := by
      funext j
      by_cases hj : j = i
      · subst hj
        simp [desk]
      · simp [hj]
    rw [hstages]
    refine ⟨trivial, fun j => ?_, ledger_perform hgate hbooks hok hp⟩
    by_cases hj : j = i
    · subst hj
      simp [desk]
    · simp [hj]

variable {calls : ι → LogCall} {c c' : Conf (LogOp ι) LogAns (AsyncLogWriter ι) ι LogEnd}

/-- The channel is closed, and no call is about to send on it or has done so. -/
structure Closed (c : Conf (LogOp ι) LogAns (AsyncLogWriter ι) ι LogEnd) : Prop where
  closed : c.state.queue.closed = true
  settled : ∀ i, stage (c.log i) ≠ .loaded false ∧ stage (c.log i) ≠ .panicked

theorem Closed.move (h : Closed c) (hs : Sound calls c)
    (hm : logging.machine.Move Machine.anyMove c c') : Closed c' := by
  cases hm with
  | env w' he _ =>
    obtain ⟨d, hd⟩ := he
    exact ⟨(drain_closed hd).trans h.closed, h.settled⟩
  | run i o k x w' hp hw _ =>
    obtain ⟨_, hw⟩ := hw
    have hok := hs.keeps i
    rw [hp] at hok
    have hok := hok.1
    have hw : c.state.perform o = some (x, w') := hw
    have hopen : o ≠ .closeQueue := by
      rintro rfl
      have hopen := (hs.gate.winner i hok).2
      rw [h.closed] at hopen
      cases hopen
    have hnext : (stage (c.log i)).next o x ≠ .loaded false ∧ (stage (c.log i)).next o x ≠ .panicked := by
      cases o with
      | loadClosed =>
        obtain ⟨rfl, -⟩ := Prod.mk.inj (Option.some.inj hw)
        rw [hs.gate.flag h.closed]
        exact ⟨nofun, nofun⟩
      | trySend j b => exact absurd hok.1 (h.settled i).1
      | closeQueue => exact absurd rfl hopen
      | addDropped => exact ⟨nofun, nofun⟩
      | compareAndSwap => exact ⟨nofun, nofun⟩
      | waitDrained => exact ⟨nofun, nofun⟩
    refine ⟨(perform_closed hw hopen).trans h.closed, fun j => ?_⟩
    by_cases hj : j = i
    · subst hj
      rw [Conf.advance_log_self, stage_snoc]
      exact hnext
    · rw [Conf.advance_log_other _ hj]
      exact h.settled j

/-- The step that closes the channel is that of a call of `Close`. -/
theorem closing_move (hm : logging.machine.Move Machine.anyMove c c')
    (hopen : c.state.queue.closed = false) (hclosed : c'.state.queue.closed = true) :
    ∃ j k w', c.prog j = .op .closeQueue k ∧ c' = c.advance j ⟨.closeQueue, true⟩ (k true) w' := by
  cases hm with
  | env w' he _ =>
    obtain ⟨d, hd⟩ := he
    cases hclosed.symm.trans ((drain_closed hd).trans hopen)
  | run i o k x w' hp hw _ =>
    obtain ⟨_, hw⟩ := hw
    by_cases ho : o = .closeQueue
    · subst ho
      have hw : c.state.perform .closeQueue = some (x, w') := hw
      simp only [perform, Channel.close, hopen] at hw
      obtain ⟨rfl, rfl⟩ := Prod.mk.inj (Option.some.inj hw)
      exact ⟨i, k, _, hp, rfl⟩
    · cases hclosed.symm.trans ((perform_closed hw ho).trans hopen)

/-- A call that is about to send when the channel is closed may panic. -/
theorem panic_of_pending (hs : Sound calls c) (hr : logging.machine.Reaches Machine.anyMove (opened calls) c)
    (hclosed : c.state.queue.closed = true) {i : ι} (hi : stage (c.log i) = .loaded false) :
    ∃ d, logging.machine.Reaches Machine.anyMove c d ∧ d.prog i = .ret .panicked := by
  obtain ⟨b, k, hk⟩ := sends_of_loaded (hs.keeps i) hi
  have hsend : c.state.perform (.trySend i b) = some (.panicked, c.state) := by
    simp [perform, Channel.trySend, hclosed]
  have hmove : logging.machine.Move Machine.anyMove c
      (c.advance i ⟨.trySend i b, .panicked⟩ (k .panicked) c.state) :=
    .run c i _ k .panicked _ hk ⟨(), hsend⟩ trivial
  refine ⟨_, .single hmove, ?_⟩
  have hsound := sound_of_reaches (hr.tail hmove)
  refine over_of_panicked (hsound.keeps i) ?_
  rw [Conf.advance_log_self, stage_snoc]
  rfl

/-- Nothing panics after the channel has been closed if no call is about to send then. -/
theorem Closed.reaches (h : Closed c) (hr : logging.machine.Reaches Machine.anyMove (opened calls) c)
    (hrest : logging.machine.Reaches Machine.anyMove c c') : Closed c' := by
  induction hrest with
  | refl => exact h
  | tail hd hm ih => exact ih.move (sound_of_reaches (hr.trans hd)) hm

omit [DecidableEq ι] in
theorem not_panicked_of_settled (hs : Sound calls c) {i : ι} (h : stage (c.log i) ≠ .panicked) :
    c.prog i ≠ .ret .panicked := by
  intro hp
  have hfinished := hs.keeps i
  rw [hp] at hfinished
  exact h hfinished

/-- Every record is accounted for, and has been handed to the output when a call of `Close` has
returned. A call panics only once the channel is closed, and exactly if some call had then loaded
the flag and not yet sent. -/
theorem log_writer_safe_iff (calls : ι → LogCall)
    {c : Conf (LogOp ι) LogAns (AsyncLogWriter ι) ι LogEnd}
    (hr : logging.machine.Reaches Machine.anyMove (opened calls) c) :
    Books calls c.state (fun i => stage (c.log i)) ∧
    (∀ i b, calls i = .write b → c.prog i = .ret .returned →
      stage (c.log i) = .queued ∨ stage (c.log i) = .dropped) ∧
    (∀ i, calls i = .close → c.prog i = .ret .returned →
      records c.state = c.state.handed.map Prod.fst) ∧
    (c.state.queue.closed = false → ∀ i, c.prog i ≠ .ret .panicked) ∧
    ∀ c', logging.machine.Move Machine.anyMove c c' →
      c.state.queue.closed = false → c'.state.queue.closed = true →
      ((∀ d, logging.machine.Reaches Machine.anyMove c' d → ∀ i, d.prog i ≠ .ret .panicked) ↔
        ∀ i, stage (c.log i) ≠ .loaded false) := by
  have hs := sound_of_reaches hr
  have hquiet : c.state.queue.closed = false → ∀ i, stage (c.log i) ≠ .panicked := by
    intro hopen i hi
    cases hopen.symm.trans (hs.gate.panicked i hi)
  refine ⟨hs.books, fun i b hcall hret => ?_, fun i hcall hret => ?_, fun hopen i => ?_,
    fun c' hm hopen hclosed => ?_⟩
  · have hfinished := hs.keeps i
    rw [hret, hcall] at hfinished
    exact hfinished
  · have hfinished := hs.keeps i
    rw [hret, hcall] at hfinished
    have hdone := hs.gate.waited i hfinished
    simp [records, hdone, held, (hs.gate.done hdone).2]
  · exact not_panicked_of_settled hs (hquiet hopen i)
  · obtain ⟨j, k, w', hj, rfl⟩ := closing_move hm hopen hclosed
    have hs' := sound_of_reaches (hr.tail hm)
    have hstage : ∀ i, i ≠ j → stage ((c.advance j ⟨.closeQueue, true⟩ (k true) w').log i) =
        stage (c.log i) := by
      intro i hne
      rw [Conf.advance_log_other _ hne]
    have hself : stage ((c.advance j ⟨.closeQueue, true⟩ (k true) w').log j) = .shut := by
      rw [Conf.advance_log_self, stage_snoc]
      rfl
    constructor
    · intro hnever i hi
      have hne : i ≠ j := by
        rintro rfl
        have hok := hs.keeps i
        rw [hj] at hok
        cases hi.symm.trans hok.1
      obtain ⟨d, hd, hpanic⟩ := panic_of_pending hs' (hr.tail hm) hclosed ((hstage i hne).trans hi)
      exact hnever d hd i hpanic
    · intro hnone d hd i
      have hsettled : Closed (c.advance j ⟨.closeQueue, true⟩ (k true) w') := by
        refine ⟨hclosed, fun i => ?_⟩
        by_cases hne : i = j
        · rw [hne, hself]
          exact ⟨nofun, nofun⟩
        · rw [hstage i hne]
          exact ⟨hnone i, hquiet hopen i⟩
      have hend := hsettled.reaches (hr.tail hm) hd
      exact not_panicked_of_settled (sound_of_reaches ((hr.tail hm).trans hd)) (hend.settled i).2

end

/-- One call writes, and the other closes. -/
def lastWords : Bool → LogCall
  | true => .write ([0x69, 0x6f])
  | false => .close

/-- The two calls, with the turns that are taken. -/
def played (turns : List (Effect.Turn (LogOp Bool) Bool Unit Drain)) :
    Conf (LogOp Bool) LogAns (AsyncLogWriter Bool) Bool LogEnd :=
  logging.play (fun _ _ _ _ => true) (fun _ _ => true) 10 turns (opened lastWords)

theorem played_reached (turns : List (Effect.Turn (LogOp Bool) Bool Unit Drain)) :
    logging.machine.Reaches Machine.anyMove (opened lastWords) (played turns) :=
  Effect.Driver.play_reaches (fun _ _ _ _ _ => trivial) (fun _ _ _ => trivial) _ _ _

def sends : LogOp Bool → Bool
  | .trySend _ _ => true
  | _ => false

/-- `Close` falls between the load and the send. -/
def overtaken : List (Effect.Turn (LogOp Bool) Bool Unit Drain) :=
  [.go true sends (fun _ => ()), .go false (fun _ => false) (fun _ => ()),
    .go true (fun _ => false) (fun _ => ())]

/-- A `Write` that sends on the closed channel. Its record is neither queued nor counted. -/
theorem write_panics_after_close : ∃ c, logging.machine.Reaches Machine.anyMove (opened lastWords) c ∧
    (c.prog true).result = some .panicked ∧ c.state.dropped = 0 ∧ records c.state = [] :=
  ⟨played overtaken, played_reached overtaken, by decide, by decide, by decide⟩

/-- The write comes first, and `Close` waits until it has been handed out. -/
def orderly : List (Effect.Turn (LogOp Bool) Bool Unit Drain) :=
  [.go true (fun _ => false) (fun _ => ()), .go false (fun _ => false) (fun _ => ()),
    .env .receive, .env (.write true), .env .receive, .go false (fun _ => false) (fun _ => ())]

theorem orderly_close_hands_out : ∃ c, logging.machine.Reaches Machine.anyMove (opened lastWords) c ∧
    (c.prog false).result = some .returned ∧
    records c.state = [(true, [0x69, 0x6f])] ∧
    records c.state = c.state.handed.map Prod.fst := by
  have hret : ((played orderly).prog false).result = some .returned := by decide
  obtain ⟨-, -, hflushed, -⟩ := log_writer_safe_iff lastWords (played_reached orderly)
  exact ⟨played orderly, played_reached orderly, hret, by decide,
    hflushed false rfl (Prog.eq_ret_of_result hret)⟩

end Switchboard.Proofs.Logging
