import Switchboard.Proofs.Ledger
import Switchboard.Proofs.Turns

namespace Switchboard.Proofs.Bookkeeping
open Text Gateway Outline Frame Ledger
open Turns (follow goBack visit_eq_turns)
open Effect (Monitor Prog)

/-- How the attempts of a request ended. A request that was refused for its temperature is
sent once more within the same attempt. -/
def endings (log : List (Effect.Event Op Ans)) : List (Upstream × Outcome) :=
  (exchanges log).filter (fun x => !refusesTemperature x.1.sent x.2)

/-- What is only done once a request has been handled. -/
@[simp] def Closing : Op → Prop
  | .tell (.count .errors _) => True
  | .tell (.observeRoute _ _ _ _ _) => True
  | .tell (.emit _) => True
  | .tell (.capture _) => True
  | _ => False

/-- Every run that ends closes nothing, and has a result, raises the counter and attempts as
`Q` says. -/
def Books (Q : β → Int → List (Upstream × Outcome) → Prop) (p : M β) : Prop :=
  p.Ensures (fun b log => Q b (risen .emptyCompletionFailed log) (endings log) ∧
    ∀ e ∈ log, ¬ Closing e.op)

theorem endings_append (xs ys : List (Effect.Event Op Ans)) :
    endings (xs ++ ys) = endings xs ++ endings ys := by
  rw [endings, exchanges, List.filterMap_append, List.filter_append]
  rfl

theorem mild_not_closing {o : Op} (h : Mild o) : ¬ Closing o := by
  cases o with
  | tell t =>
    cases t with
    | count m n => cases m <;> first | exact id | exact fun _ => h
    | observeRoute p m status ms u => exact fun _ => h
    | emit e => exact fun _ => h
    | capture r => exact fun _ => h
    | _ => exact id
  | _ => exact id

theorem rise_of_mild {e : Effect.Event Op Ans} (h : Mild e.op) :
    rise .emptyCompletionFailed e = 0 := by
  obtain ⟨o, x⟩ := e
  cases o with
  | tell t =>
    cases t with
    | count m n =>
      cases m with
      | emptyCompletionFailed => exact h.elim
      | _ => rfl
    | _ => rfl
  | _ => rfl

theorem exchangeOf_of_mild {e : Effect.Event Op Ans} (h : Mild e.op) : exchangeOf e = none := by
  obtain ⟨o, x⟩ := e
  cases o with
  | send u => exact h.elim
  | _ => rfl

theorem exchanges_of_mild {log : List (Effect.Event Op Ans)} (h : ∀ e ∈ log, Mild e.op) :
    exchanges log = [] := by
  rw [exchanges, List.filterMap_eq_nil_iff]
  exact fun e he => exchangeOf_of_mild (h e he)

section
variable {α β : Type} {Q : β → Int → List (Upstream × Outcome) → Prop}

theorem Books.mono {R : β → Int → List (Upstream × Outcome) → Prop} {p : M β} (h : Books Q p)
    (hq : ∀ b n xs, Q b n xs → R b n xs) : Books R p :=
  Prog.Ensures.mono h (fun b _ hb => ⟨hq b _ _ hb.1, hb.2⟩)

theorem books_ret {b : β} (h : Q b 0 []) : Books Q (pure b) :=
  Prog.ensures_ret ⟨h, fun _ he => nomatch he⟩

theorem books_bind {P : α → Int → List (Upstream × Outcome) → Prop} {p : M α} {f : α → M β}
    (hp : Books P p)
    (hf : ∀ a n xs, P a n xs → Books (fun b m ys => Q b (n + m) (xs ++ ys)) (f a)) :
    Books Q (p >>= f) := by
  refine Prog.Ensures.bind hp (fun a log ha => ?_)
  refine Prog.Ensures.mono (hf a _ _ ha.1) (fun b log' h => ?_)
  rw [risen_append, endings_append]
  refine ⟨h.1, fun e he => ?_⟩
  rcases List.mem_append.mp he with he | he
  · exact ha.2 e he
  · exact h.2 e he

/-- What is done everywhere else changes neither. -/
theorem books_of_gentle {R : β → Prop} {p : M β} (h : Gentle R p) (hq : ∀ b, R b → Q b 0 []) :
    Books Q p := by
  refine h.ensures.mono (fun b log hb => ?_)
  rw [risen_eq_zero (fun e he => rise_of_mild (hb.2 e he)), endings, exchanges_of_mild hb.2]
  exact ⟨hq b hb.1, fun e he => mild_not_closing (hb.2 e he)⟩

theorem books_seq {R : α → Prop} {p : M α} {f : α → M β} (hp : Gentle R p)
    (hf : ∀ a, R a → Books Q (f a)) : Books Q (p >>= f) := by
  refine books_bind (books_of_gentle (Q := fun a n xs => R a ∧ n = 0 ∧ xs = []) hp
    (fun a ha => ⟨ha, rfl, rfl⟩)) ?_
  rintro a n xs ⟨ha, rfl, rfl⟩
  exact (hf a ha).mono (fun b m ys h => by simpa using h)

theorem books_call {o : Op} {f : Ans o → M β} (ho : Mild o) (hf : ∀ x, Books Q (f x)) :
    Books Q (Prog.call o >>= f) :=
  books_seq (Prog.does_op ho) (fun x _ => hf x)

/-- An operation that is entered into the books itself. -/
theorem books_op {o : Op} {f : Ans o → M β} (ho : ¬ Closing o)
    (hf : ∀ x, Books (fun b n xs => Q b (rise .emptyCompletionFailed ⟨o, x⟩ + n)
      (endings [⟨o, x⟩] ++ xs)) (f x)) : Books Q (Prog.call o >>= f) := by
  refine Prog.ensures_call (fun x => Prog.Ensures.mono (hf x) (fun b log h => ?_))
  refine ⟨?_, List.forall_mem_cons.mpr ⟨ho, h.2⟩⟩
  rw [risen_cons, ← List.singleton_append, endings_append]
  exact h.1

theorem books_ask {a : Ask} {f : Bool → M β} (hf : ∀ x, Books Q (f x)) :
    Books Q (ask a >>= f) := by
  refine books_op id (fun x => (hf x).mono (fun b n xs h => ?_))
  show Q b (0 + n) xs
  rwa [Int.zero_add]

theorem books_send {u : Upstream} {f : Outcome → M β}
    (hf : ∀ o, Books (fun b n xs => Q b n
      (if refusesTemperature u.sent o then xs else (u, o) :: xs)) (f o)) :
    Books Q (send u >>= f) := by
  refine books_op id (fun o => (hf o).mono (fun b n xs h => ?_))
  have hends : endings [⟨.send u, o⟩] ++ xs =
      if refusesTemperature u.sent o then xs else (u, o) :: xs := by
    simp only [endings, exchanges, exchangeOf, List.filterMap_cons, List.filterMap_nil,
      List.filter_cons, List.filter_nil]
    cases refusesTemperature u.sent o <;> rfl
  rw [hends]
  simpa [rise] using h

end

/-- The loop as a turn leaves it, unless the turn ended it. -/
def goesOn : FlowOf Loop → Option Loop
  | .next st => some st
  | .stop st => some st
  | .again st => some st
  | .done _ => none

/-- A turn counts its attempts, remembers the empty answers among them, and does not answer
with 503. -/
structure Counts (lib : Lib) (st : Loop) (flow : FlowOf Loop) (n : Int)
    (xs : List (Upstream × Outcome)) : Prop where
  calm : n = 0
  attempts : ∀ st', goesOn flow = some st' → st'.event.attempts = st.event.attempts + xs.length
  empties : ∀ st', goesOn flow = some st' →
    (st'.empties ≠ [] ↔ st.empties ≠ [] ∨ ∃ x ∈ xs, Emptied lib x)
  status : ∀ e, flow = .done e → e.event.status ≠ 503

/-- How an attempt goes on. Only here may the loop go back. -/
inductive Led (empty : Prop) (n : Int) (es : List EmptyRoute) : FlowOf Loop → Prop
  | goes {flow : FlowOf Loop} (h : Goes empty n es flow) : Led empty n es flow
  | again (st : Loop) (h : ¬ empty) (attempts : st.event.attempts = n) (same : st.empties = es) :
      Led empty n es (.again st)

section
variable {k : Inference} {route : Route} {st : Loop} {empty : Prop} {n : Int}
  {es : List EmptyRoute} {repeatable : Bool}

theorem led_of_goes {p : M (FlowOf Loop)} (h : Gentle (Goes empty n es) p) :
    Gentle (Led empty n es) p :=
  h.mono (fun _ => .goes)

theorem led_rateLimited {delay : Int} (h : ¬ empty) (hn : st.event.attempts = n)
    (hes : st.empties = es) :
    Gentle (Led empty n es) (rateLimited k route (goBack repeatable) st delay) := by
  have hleave : Gentle (Led empty n es) (rateLimited.leaveAlone route st delay) :=
    led_of_goes (goes_leaveAlone h hn hes)
  refine Prog.does_call trivial (fun _ => ?_)
  cases repeatable with
  | false => exact hleave
  | true =>
    simp only [goBack, if_true]
    split
    · refine Prog.does_call trivial (fun _ => Prog.does_call trivial (fun _ => ?_))
      refine Prog.does_call trivial (fun passed => ?_)
      split
      · exact Prog.does_ret (.again st h hn hes)
      · exact led_of_goes (goes_fail hn (by decide))
    · exact hleave

theorem led_refused {status : Int} {header : String} {body : Body} (h : ¬ empty)
    (hn : st.event.attempts = n) (hes : st.empties = es) :
    Gentle (Led empty n es) (refused k route (goBack repeatable) st status header body) := by
  have hnext : ∀ f : Fault, Gentle (Led empty n es) (pure (.next
      { st with event := { st.event with fault := f.string } }) : M (FlowOf Loop)) :=
    fun f => Prog.does_ret (.goes (.refused _ h hn hes))
  refine Prog.does_call trivial (fun t => ?_)
  dsimp only
  split
  · refine Prog.does_call trivial (fun _ => Prog.does_call trivial (fun _ => ?_))
    exact Prog.does_call trivial (fun _ => hnext _)
  · exact led_rateLimited h hn hes
  · refine Prog.does_call trivial (fun _ => Prog.does_call trivial (fun _ => ?_))
    split
    · exact Prog.does_call trivial (fun _ => hnext _)
    · exact hnext _
  · refine Prog.does_call trivial (fun _ => Prog.does_call trivial (fun _ => ?_))
    exact hnext _
  · exact led_of_goes (goes_terminal hn)

theorem led_conclude {u : Upstream} {o : Outcome} (hr : u.route = route)
    (hs : u.sent.stream = k.chat.stream) (hn : st.event.attempts = n) (hes : st.empties = es) :
    Gentle (Led (Emptied k.srv.lib (u, o)) n es) (conclude k route (goBack repeatable) st o) := by
  cases o with
  | failed => exact led_of_goes (goes_failed hn _)
  | response status header contentType body =>
    simp only [conclude]
    split
    · rename_i hstatus
      exact led_refused (fun he => hstatus he.1) hn hes
    · rename_i hstatus
      obtain rfl : status = 200 := not_not.mp hstatus
      exact led_of_goes (goes_accepted hr hs hn)

theorem counts_on {lib : Lib} {flow : FlowOf Loop} {st' : Loop} {xs : List (Upstream × Outcome)}
    (hf : goesOn flow = some st') (hn : st'.event.attempts = st.event.attempts + xs.length)
    (he : st'.empties ≠ [] ↔ st.empties ≠ [] ∨ ∃ x ∈ xs, Emptied lib x) :
    Counts lib st flow 0 xs := by
  refine ⟨rfl, ?_, ?_, ?_⟩
  · intro st'' hst
    cases hf.symm.trans hst
    exact hn
  · intro st'' hst
    cases hf.symm.trans hst
    exact he
  · rintro e rfl
    cases hf

theorem counts_done {lib : Lib} {e : Ended} {xs : List (Upstream × Outcome)}
    (h : e.event.status ≠ 503) : Counts lib st (.done e) 0 xs := by
  refine ⟨rfl, ?_, ?_, ?_⟩
  · intro st' hst
    cases hst
  · intro st' hst
    cases hst
  · intro e' he
    cases he
    exact h

/-- An attempt that has been answered is counted. -/
theorem counts_of_led {lib : Lib} {x : Upstream × Outcome} {flow : FlowOf Loop}
    (h : Led (Emptied lib x) (st.event.attempts + 1) st.empties flow) :
    Counts lib st flow 0 [x] := by
  cases h with
  | goes h =>
    cases h with
    | empty st' hx hn hne => exact counts_on rfl hn (by simp [hx, hne])
    | refused st' hx hn hsame => exact counts_on rfl hn (by simp [hx, hsame])
    | done e hn hs => exact counts_done hs
  | again st' hx hn hsame => exact counts_on rfl hn (by simp [hx, hsame])

/-- Nothing was attempted. -/
theorem counts_idle {lib : Lib} {flow : FlowOf Loop} {st' : Loop} (hf : goesOn flow = some st')
    (hn : st'.event.attempts = st.event.attempts) (he : st'.empties = st.empties) :
    Counts lib st flow 0 [] :=
  counts_on hf (by simp [hn]) (by simp [he])

theorem books_adapterFailed {lib : Lib} {st' : Loop} :
    Books (Counts lib st) (adapterFailed route st' : M (FlowOf Loop)) := by
  refine books_call trivial (fun _ => ?_)
  rw [Prog.map_def, fail, Prog.bind_assoc]
  refine books_seq (gentle_problem _ _) (fun _ _ => books_ret (counts_done ?_))
  show (500 : Int) ≠ 503
  decide

theorem books_conclude {u : Upstream} {o : Outcome} (hr : u.route = route)
    (hs : u.sent.stream = k.chat.stream) :
    Books (fun flow n xs => Counts k.srv.lib st flow n ((u, o) :: xs))
      (conclude k route (goBack repeatable) (st.attempting route) o) :=
  books_of_gentle (led_conclude hr hs rfl rfl) (fun _ h => counts_of_led h)

theorem books_exchange {pc : ProviderConfig} {sent : Chat} (hs : sent.stream = k.chat.stream) :
    Books (Counts k.srv.lib st)
      (Gateway.exchange k route pc (goBack repeatable) (st.attempting route) sent) := by
  refine books_seq gentle_upstream (fun u hu => ?_)
  cases u with
  | none => exact books_adapterFailed
  | some u =>
    obtain ⟨hroute, hsent⟩ := hu u rfl
    refine books_send (fun res => ?_)
    have hsame : (withRequestID k.id u).sent = sent := hsent
    rw [hsame]
    split
    · refine books_call trivial (fun _ => books_call trivial (fun _ => ?_))
      refine books_seq gentle_upstream (fun v hv => ?_)
      cases v with
      | none => exact books_adapterFailed
      | some v =>
        obtain ⟨hroute, hsent⟩ := hv v rfl
        refine books_send (fun res => ?_)
        have hcold : refusesTemperature (withRequestID k.id v).sent res = false := by
          rw [show (withRequestID k.id v).sent = _ from hsent]
          cases res <;> simp [refusesTemperature]
        rw [hcold]
        exact books_conclude hroute (by rw [show (withRequestID k.id v).sent = _ from hsent]; exact hs)
    · exact books_conclude hroute (by rw [hsame]; exact hs)

/-- The chat is sent as it came but for its temperature and its mark. -/
theorem books_prepare {β : Type} {Q : β → Int → List (Upstream × Outcome) → Prop} {f : Chat → M β}
    (hf : ∀ sent, sent.stream = k.chat.stream → Books Q (f sent)) :
    Books Q (prepare k route >>= f) := by
  rw [prepare, Prog.bind_assoc]
  refine books_seq gentle_dropTemperature (fun sent hsent => ?_)
  obtain ⟨t, rfl⟩ := hsent
  unfold markCached
  split
  · rw [Prog.bind_assoc]
    refine books_ask (fun worth => ?_)
    split
    · refine books_call trivial (fun _ => books_call trivial (fun _ => ?_))
      exact hf _ rfl
    · exact hf _ rfl
  · exact hf _ rfl

theorem books_pace {f : Option (FlowOf Loop) → M (FlowOf Loop)} {lib : Lib}
    (hnone : Books (Counts lib st) (f none))
    (hsome : ∀ flow, Counts lib st flow 0 [] → Books (Counts lib st) (f (some flow))) :
    Books (Counts lib st) (pace route st >>= f) := by
  unfold pace
  split
  · exact hnone
  rw [Prog.bind_assoc]
  refine books_ask (fun granted => ?_)
  split
  · simp only [Prog.bind_assoc]
    refine books_call trivial (fun _ => books_call trivial (fun t => ?_))
    refine books_call trivial (fun passed => ?_)
    split
    · exact hnone
    · simp only [Prog.map_def, fail, Prog.bind_assoc]
      refine books_call trivial (fun _ => books_seq (gentle_problem _ _) (fun _ _ => ?_))
      refine hsome _ (counts_done ?_)
      show (504 : Int) ≠ 503
      decide
  · exact books_call trivial (fun _ => hsome _ (counts_idle rfl rfl rfl))

theorem books_attempt {pc : ProviderConfig} :
    Books (Counts k.srv.lib st) (attempt k route pc (goBack repeatable) st) := by
  have hidle : Books (Counts k.srv.lib st) (pure (.next st) : M (FlowOf Loop)) :=
    books_ret (counts_idle rfl rfl rfl)
  unfold attempt
  split
  · exact books_ret (counts_idle rfl rfl rfl)
  split
  · exact hidle
  refine books_call trivial (fun allowed => ?_)
  split
  · apply books_pace
    · exact books_prepare (fun sent hs => books_exchange hs)
    · intro flow hflow
      exact books_ret hflow
  · exact hidle

theorem books_turn (skip : Bool) :
    Books (Counts k.srv.lib st) (turn k route skip (fun _ => goBack repeatable) st) := by
  unfold turn
  split
  · exact books_ret (counts_idle rfl rfl rfl)
  · split
    · exact books_call trivial (fun _ => books_ret (counts_idle rfl rfl rfl))
    · exact books_attempt

/-- The loop over the routes answers 503 when no attempt was conclusive, and raises the
counter if one of them was empty. -/
structure Closes (lib : Lib) (st : Loop) (e : Ended) (n : Int) (xs : List (Upstream × Outcome)) :
    Prop where
  attempts : e.event.status = 503 → e.event.attempts = st.event.attempts + xs.length
  raised : n = 1 ∧ e.event.status = 503 ∧ (st.empties ≠ [] ∨ ∃ x ∈ xs, Emptied lib x) ∨
    n = 0 ∧ ¬ (e.event.status = 503 ∧ (st.empties ≠ [] ∨ ∃ x ∈ xs, Emptied lib x))

theorem Counts.closes {lib : Lib} {st' : Loop} {flow : FlowOf Loop} {n m : Int} {e : Ended}
    {xs ys : List (Upstream × Outcome)} (h : Counts lib st flow n xs)
    (hf : goesOn flow = some st') (h' : Closes lib st' e m ys) :
    Closes lib st e (n + m) (xs ++ ys) := by
  have hn := h.calm
  have he := h.empties st' hf
  refine ⟨fun hs => ?_, ?_⟩
  · rw [h'.attempts hs, h.attempts st' hf, List.length_append]
    omega
  · have hr := h'.raised
    rw [he] at hr
    simp only [hn, Int.zero_add, List.mem_append]
    grind

theorem closes_fail {n : Int} {msg : String}
    (h : n = 1 ∧ st.empties ≠ [] ∨ n = 0 ∧ st.empties = []) :
    Books (fun e m xs => Closes k.srv.lib st e (n + m) xs) (fail st.event false 503 msg) := by
  refine books_of_gentle (gentle_fail (Q := fun e => e.event = { st.event with status := 503 }) rfl)
    (fun e he => ?_)
  refine ⟨fun _ => by simp [he], ?_⟩
  rcases h with ⟨hn, hne⟩ | ⟨hn, hne⟩
  · exact .inl ⟨by simp [hn], by rw [he], .inl hne⟩
  · exact .inr ⟨by simp [hn], by simp [hne]⟩

theorem closes_exhausted : Books (Closes k.srv.lib st) (exhausted k st) := by
  refine books_call trivial (fun _ => ?_)
  split
  · rename_i hne
    exact books_op id (fun _ => closes_fail (k := k) (.inl ⟨rfl, hne⟩))
  · rename_i hne
    exact (closes_fail (.inr ⟨rfl, not_not.mp hne⟩)).mono (fun e m xs h => by simpa using h)

/-- A turn, and what becomes of the request after it. -/
theorem closes_turn (skip b : Bool) {f : FlowOf Loop → M Ended}
    (hf : ∀ flow st', goesOn flow = some st' → Books (Closes k.srv.lib st') (f flow))
    (hdone : ∀ e, f (.done e) = pure e) :
    Books (Closes k.srv.lib st) (turn k route skip (fun _ => goBack b) st >>= f) := by
  refine books_bind (books_turn skip) (fun flow n xs h => ?_)
  cases hflow : goesOn flow with
  | some st' => exact (hf flow st' hflow).mono (fun e m ys h' => h.closes hflow h')
  | none =>
    cases flow with
    | done e =>
      rw [hdone]
      have hs := h.status e rfl
      exact books_ret ⟨fun h503 => absurd h503 hs, .inr ⟨by simp [h.calm], fun h503 => hs h503.1⟩⟩
    | _ => cases hflow

/-- The turns of a route, one or two. -/
theorem closes_visit (skip : Bool) {f : Flow → M Ended}
    (hnext : ∀ st', Books (Closes k.srv.lib st') (f (.next st')))
    (hstop : ∀ st', Books (Closes k.srv.lib st') (f (.stop st')))
    (hdone : ∀ e, f (.done e) = pure e) :
    Books (Closes k.srv.lib st) (visit k route skip st >>= f) := by
  have hon : ∀ flow st', goesOn flow = some st' →
      Books (Closes k.srv.lib st') (follow (fun st => pure (.next st)) flow >>= f) := by
    intro flow st' hflow
    cases flow with
    | next st => cases hflow; exact hnext _
    | stop st => cases hflow; exact hstop _
    | done e => cases hflow
    | again st => cases hflow; exact hnext _
  rw [visit_eq_turns, Prog.bind_assoc]
  apply closes_turn skip true
  · intro flow st' hflow
    cases flow with
    | again st =>
      cases hflow
      show Books _ (turn k route skip (fun _ => none) _ >>= f)
      rw [← Turns.turn_never (fun st : Loop => pure (.next st)) skip, Prog.bind_assoc]
      exact closes_turn skip false hon hdone
    | next st => exact hon _ st' hflow
    | stop st => exact hon _ st' hflow
    | done e => cases hflow
  · exact hdone

theorem closes_routeLoop (routes : List (Route × Bool)) (st : Loop) :
    Books (Closes k.srv.lib st) (routeLoop k routes st) := by
  induction routes generalizing st with
  | nil => exact closes_exhausted
  | cons r rest ih =>
    obtain ⟨route, skip⟩ := r
    apply closes_visit skip
    · exact fun st' => ih st'
    · exact fun st' => closes_exhausted
    · exact fun e => rfl

/-- What the handling of a request comes to. -/
def Booked (lib : Lib) (event : Event) (n : Int) (xs : List (Upstream × Outcome)) : Prop :=
  Closes lib { event := {} } { event := event } n xs

theorem booked_of_gentle {lib : Lib} {p : M Ended} (h : Gentle (fun e => e.event.attempts = 0) p) :
    Books (fun e => Booked lib e.event) p := by
  refine books_of_gentle h (fun e he => ⟨fun _ => by simpa using he, .inr ⟨rfl, ?_⟩⟩)
  simp

theorem booked_dispatch {event : Event} (h : event.attempts = 0) :
    Books (fun e => Booked k.srv.lib e.event) (dispatch k event) := by
  refine books_call trivial (fun policy => ?_)
  cases policy with
  | none => exact booked_of_gentle (gentle_fail h)
  | some p =>
    refine books_seq (gentle_prepass _) (fun skips _ => ?_)
    refine (closes_routeLoop _ _).mono (fun e n xs hc => ⟨fun hs => ?_, hc.raised⟩)
    rw [hc.attempts hs, h]

theorem booked_claim {event : Event} (h : event.attempts = 0) :
    Books (fun e => Booked k.srv.lib e.event) (claim k event) := by
  unfold claim
  split
  · exact booked_dispatch h
  refine books_call trivial (fun prior => ?_)
  split
  · exact booked_of_gentle (gentle_fail h)
  · exact booked_of_gentle (gentle_fail h)
  · exact booked_of_gentle (gentle_replay.mono (fun e he => he.trans h))
  · refine books_bind (booked_dispatch h) (fun e n xs he => ?_)
    have hrest : Gentle (fun e' => e' = e) (do
        if !e.settled then releaseKey k.key
        pure e : M Ended) := by
      split
      · exact Prog.does_call trivial (fun _ => Prog.does_ret rfl)
      · exact Prog.does_ret rfl
    refine books_of_gentle hrest ?_
    rintro _ rfl
    simpa using he

theorem booked_serve {srv : Server} {r : Request} {id : String} {start : Int} {event : Event}
    (h : event.attempts = 0) :
    Books (fun e => Booked srv.lib e.event) (serve srv r id start event) := by
  refine Serves.serve ⟨?_, ?_, ?_⟩ (fun b c _ => booked_claim h)
  · exact fun ho hf => books_call (mild_of_clerical _ ho) hf
  · exact fun _ => booked_of_gentle (gentle_fail h)
  · intro p f hp hf
    refine books_bind hp (fun e n xs he => ?_)
    have hleave := (hf e).relax (fun o ho => mild_of_clerical o (clerical_of_leaving o ho))
    refine books_of_gentle hleave (fun e' he' => ?_)
    rw [he', Int.add_zero, List.append_nil]
    exact he

end

/-- What is logged once a request has been handled. -/
def closingLog (srv : Server) (event : Event) (t t' t'' ms : Int) (r : CaptureRecord) :
    List (Effect.Event Op Ans) :=
  [⟨.now, t⟩] ++
    ((if 0 < event.attempts then [⟨.now, t'⟩, ⟨.tell (.observeRoute event.provider event.model
      event.status ms event.usage), ()⟩] else []) ++
    ((if decide (400 ≤ event.status) || event.streamFailed then
      [⟨.tell (.count .errors 1), ()⟩] else []) ++
    ((if srv.telemetry then [⟨.tell (.emit event), ()⟩] else []) ++
    (if srv.capture then [⟨.now, t''⟩, ⟨.tell (.capture r), ()⟩] else []))))

theorem ensures_tellIf (b : Bool) (o : Tell) :
    (tellIf b o).Ensures (fun _ log => log = if b then [⟨.tell o, ()⟩] else []) := by
  cases b with
  | true => exact Prog.ensures_call (fun _ => Prog.ensures_ret rfl)
  | false => exact Prog.ensures_ret rfl

theorem ensures_measure (start : Int) (event : Event) :
    (Gateway.measure start event).Ensures (fun _ log => ∃ t ms, log =
      if 0 < event.attempts then [⟨.now, t⟩, ⟨.tell (.observeRoute event.provider event.model
        event.status ms event.usage), ()⟩] else []) := by
  unfold Gateway.measure
  split
  · exact Prog.ensures_call (fun t => Prog.ensures_call (fun _ => Prog.ensures_ret ⟨t, _, rfl⟩))
  · exact Prog.ensures_ret ⟨0, 0, rfl⟩

theorem ensures_record (srv : Server) (ended : Ended) (event : Event) :
    (record srv ended event).Ensures (fun _ log => ∃ t r, log =
      if srv.capture then [⟨.now, t⟩, ⟨.tell (.capture r), ()⟩] else []) := by
  unfold record
  split
  · exact Prog.ensures_call (fun t => Prog.ensures_call (fun _ => Prog.ensures_ret ⟨t, _, rfl⟩))
  · exact Prog.ensures_ret ⟨0, ⟨"", "", 0, "", "", 0, 0, "", 0, none, none, ""⟩, rfl⟩

theorem ensures_epilogue (srv : Server) (start : Int) (ended : Ended) :
    (epilogue srv start ended).Ensures (fun event log =>
      ∃ t t' t'' ms r, event = { ended.event with finish := t } ∧
        log = closingLog srv event t t' t'' ms r) := by
  refine Prog.ensures_call (fun t => ?_)
  refine Prog.Ensures.bind (ensures_measure _ _) (fun _ m hm => ?_)
  obtain ⟨t', ms, rfl⟩ := hm
  refine Prog.Ensures.bind (ensures_tellIf _ _) (fun _ e he => ?_)
  subst he
  refine Prog.Ensures.bind (ensures_tellIf _ _) (fun _ e he => ?_)
  subst he
  refine Prog.Ensures.bind (ensures_record _ _ _) (fun _ e he => ?_)
  obtain ⟨t'', r, rfl⟩ := he
  refine Prog.ensures_ret ⟨t, t', t'', ms, r, rfl, ?_⟩
  simp [closingLog]

/-- The log of a request: nothing of note, its handling, and its closing. -/
def Parts (srv : Server) (event : Event) (log : List (Effect.Event Op Ans)) : Prop :=
  ∃ ended pre mid t t' t'' ms c, log = pre ++ (mid ++ closingLog srv event t t' t'' ms c) ∧
    (∀ e ∈ pre, Mild e.op) ∧ (∀ e ∈ mid, ¬ Closing e.op) ∧
    Booked srv.lib ended (risen .emptyCompletionFailed mid) (endings mid) ∧
    event = { ended with finish := t }

theorem parts_call {srv : Server} {o : Op} {f : Ans o → M Event} (ho : Mild o)
    (hf : ∀ x, (f x).Ensures (Parts srv)) : (Prog.call o >>= f).Ensures (Parts srv) := by
  refine Prog.ensures_call (fun x => (hf x).mono (fun event log h => ?_))
  obtain ⟨ended, pre, mid, t, t', t'', ms, c, rfl, hpre, hrest⟩ := h
  exact ⟨ended, ⟨o, x⟩ :: pre, mid, t, t', t'', ms, c, rfl, List.forall_mem_cons.mpr ⟨ho, hpre⟩, hrest⟩

theorem ensures_chat (srv : Server) (r : Request) : (chat srv r).Ensures (Parts srv) := by
  apply chat_of_serve (fun ho => parts_call (mild_of_clerical _ ho))
  intro id eventID trace span parent start
  refine Prog.Ensures.bind (booked_serve rfl) (fun ended mid hmid => ?_)
  refine (ensures_epilogue srv start ended).mono (fun event post hpost => ?_)
  obtain ⟨t, t', t'', ms, c, he, rfl⟩ := hpost
  exact ⟨ended.event, [], mid, t, t', t'', ms, c, rfl, by simp, hmid.2, hmid.1, he⟩

end Switchboard.Proofs.Bookkeeping
