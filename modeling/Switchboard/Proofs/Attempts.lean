import Switchboard.Proofs.Airing
import Switchboard.Proofs.Requests
import Switchboard.Proofs.Usage

namespace Switchboard.Proofs.Tally
open Text Gateway Outline
open Watch (EmptyAnswer assembled)
open Effect (Monitor Prog)
open Usage (Fits)

/-- A route as the event names it when it is passed over. -/
def label (r : Route) : String := r.provider ++ ":" ++ r.model

/-- The part of an event that is fixed before the request is served. -/
def core (e : Event) : Event :=
  { id := e.id, requestID := e.requestID, traceID := e.traceID, spanID := e.spanID,
    parentID := e.parentID, start := e.start }

/-- What an event says about the routes of policy `p` once those of `seen` have been
looked at. -/
structure Facts (base : Event) (limit : Int) (p : Policy) (seen : List Route) (event : Event) :
    Prop where
  core : core event = core base
  replayed : event.replayed = false
  version : event.policyVersion = p.version
  nonneg : 0 ≤ event.attempts
  bounded : 0 < event.attempts → event.attempts ≤ limit
  unnamed : event.attempts = 0 → event.provider = "" ∧ event.model = ""
  named : 0 < event.attempts → ∃ r ∈ p.routes, event.provider = r.provider ∧ event.model = r.model
  fault : event.fault = "" ∨ ∃ f : Fault, event.fault = f.string
  skipped : event.budgetSkipped.Sublist (seen.map label)
  usage : Fits event.usage

theorem Facts.closing {base event : Event} {limit : Int} {p : Policy} {seen : List Route}
    (h : Facts base limit p seen event) (status : Int) {usage : TokenUsage} (hu : Fits usage)
    (streamFailed : Bool) :
    Facts base limit p seen
      { event with status := status, usage := usage, streamFailed := streamFailed } :=
  ⟨h.core, h.replayed, h.version, h.nonneg, h.bounded, h.unnamed, h.named, h.fault, h.skipped, hu⟩

theorem Facts.classified {base event : Event} {limit : Int} {p : Policy} {seen : List Route}
    (h : Facts base limit p seen event) (f : Fault) :
    Facts base limit p seen { event with fault := f.string } :=
  ⟨h.core, h.replayed, h.version, h.nonneg, h.bounded, h.unnamed, h.named, .inr ⟨f, rfl⟩, h.skipped,
    h.usage⟩

theorem Facts.more {base event : Event} {limit : Int} {p : Policy} {seen : List Route}
    (h : Facts base limit p seen event) (route : Route) :
    Facts base limit p (seen ++ [route]) event := by
  refine ⟨h.core, h.replayed, h.version, h.nonneg, h.bounded, h.unnamed, h.named, h.fault, ?_, h.usage⟩
  rw [List.map_append]
  exact h.skipped.trans (List.sublist_append_left _ _)

/-- What the client has been shown of `status`. -/
def Shows (lib : Lib) (status : Int) (g : Sheet) : Prop :=
  Mistyped lib g.sent.head? ∧ status = 200 ∧ g.shown = some 502 ∨
    ¬ Mistyped lib g.sent.head? ∧ g.shown = some status

/-- Every status that the routing of a request ends with. -/
def routedStatuses : List Int := [200, 400, 500, 502, 503, 504]

/-- The answer to the last attempt. One for which no request could be built has none, and it
is the only one that ends with 500. -/
def lastAnswer (status : Int) (sent : List (Upstream × Outcome)) : Option (Upstream × Outcome) :=
  if status = 500 then none else sent.head?

/-- The event names the route that the exchange was with. -/
def Names (event : Event) (last : Option (Upstream × Outcome)) : Prop :=
  ∀ x ∈ last, event.provider = x.1.route.provider ∧ event.model = x.1.route.model

/-- Nothing is charged for nothing. -/
theorem charged_nil {lib : Lib} {lost : Bool} {status : Int} {used : TokenUsage}
    {sent : List (Upstream × Outcome)} (hs : sent = []) (hu : used = {}) :
    Charged lib lost used (lastAnswer status sent) sent := by
  subst hs
  have hnone : lastAnswer status [] = none := by
    unfold lastAnswer
    split <;> rfl
  rw [hnone]
  exact ⟨fun hset => hset.elim, fun _ _ => hu⟩

theorem names_nil {event : Event} {status : Int} {sent : List (Upstream × Outcome)} (hs : sent = []) :
    Names event (lastAnswer status sent) := by
  subst hs
  unfold lastAnswer
  split <;> exact fun x hx => nomatch hx

/-- What a request is routed with: its event so far, the policy, what became of its key,
and whether some route could be tried. -/
structure Job where
  base : Event
  policy : Policy
  prior : Option (Except StoreError (Option IdemEntry))
  could : Bool

/-- A request that is being routed, with nothing shown to its client. -/
structure Underway (k : Inference) (J : Job) (seen : List Route) (st : Loop) (g : Sheet) : Prop
    extends Facts J.base k.srv.c.maxAttempts J.policy seen st.event where
  kept : g.could = J.could ∧ g.prior = J.prior
  quiet : g.shown = none
  heard : g.lost = false
  typed : ¬ Mistyped k.srv.lib g.sent.head?
  used : st.event.usage = owed g.sent
  reports : Sets k.srv.lib g.sent.head? → Reports k.srv.lib false st.event.usage g.sent.head?

/-- A request between two routes. -/
structure Going (k : Inference) (J : Job) (seen : List Route) (st : Loop) (g : Sheet) : Prop
    extends Underway k J seen st g where
  names : Names st.event g.sent.head?

/-- A request whose routing is over. -/
structure Told (k : Inference) (J : Job) (seen : List Route) (event : Event) (g : Sheet) : Prop
    extends Facts J.base k.srv.c.maxAttempts J.policy seen event where
  kept : g.could = J.could ∧ g.prior = J.prior
  shows : Shows k.srv.lib event.status g
  status : event.status ∈ routedStatuses
  used : Charged k.srv.lib g.lost event.usage (lastAnswer event.status g.sent) g.sent
  names : Names event (lastAnswer event.status g.sent)

/-- Either something has been tried, or nothing is less sure than before and the route
was not due. -/
def Idle (sure : List String) (due : Prop) (st : Loop) (g : Sheet) : Prop :=
  0 < st.event.attempts ∨ g.sure = sure ∧ ¬ due

/-- How the loop goes on. -/
def After (k : Inference) (J : Job) (seen : List Route) (sure : List String) (due : Prop) :
    Flow → Sheet → Prop
  | .next st, g => Going k J seen st g ∧ Idle sure due st g
  | .stop st, g => Going k J seen st g ∧ (0 < st.event.attempts ∨ k.srv.c.maxAttempts ≤ 0)
  | .done e, g => Told k J seen e.event g ∧ 0 < e.event.attempts

theorem Reports.weaken {lib : Lib} {used : TokenUsage} {x : Option (Upstream × Outcome)}
    (h : Reports lib false used x) (lost : Bool) : Reports lib lost used x := by
  rcases x with _ | ⟨u, _ | ⟨status, retryAfter, contentType, body⟩⟩
  · exact h
  · exact h
  · simp only [Reports] at h ⊢
    split
    · rename_i hs
      simpa [hs] using h
    · rename_i hs
      rw [if_neg hs] at h
      split
      · rename_i hstream
        rw [if_pos hstream] at h
        split
        · rename_i hb
          simpa [hb] using h
        · rename_i b hb
          simp only [hb] at h
          obtain ⟨n, hn, hall⟩ := h
          exact ⟨n, hn, fun _ => hall trivial⟩
      · rename_i hstream
        rwa [if_neg hstream] at h

section
variable {A : Assume} {k : Inference} {J : Job} {seen : List Route} {sure : List String}
  {due : Prop} {st : Loop} {g : Sheet} {route : Route}

/-- Only what goes to the client and to providers matters between two routes. -/
theorem Underway.same {g' : Sheet} (h : Underway k J seen st g)
    (hkept : g'.could = g.could ∧ g'.prior = g.prior) (hshown : g'.shown = g.shown)
    (hlost : g'.lost = g.lost) (hsent : g'.sent = g.sent) : Underway k J seen st g' :=
  ⟨h.toFacts, ⟨hkept.1.trans h.kept.1, hkept.2.trans h.kept.2⟩, hshown.trans h.quiet, hlost.trans h.heard,
    by rw [hsent]; exact h.typed, by rw [hsent]; exact h.used, by rw [hsent]; exact h.reports⟩

theorem Going.same {g' : Sheet} (h : Going k J seen st g) (hkept : g'.could = g.could ∧ g'.prior = g.prior)
    (hshown : g'.shown = g.shown) (hlost : g'.lost = g.lost) (hsent : g'.sent = g.sent) :
    Going k J seen st g' :=
  ⟨h.toUnderway.same hkept hshown hlost hsent, by rw [hsent]; exact h.names⟩

/-- A request that ends without having shown anything. -/
theorem Underway.told (h : Underway k J seen st g) {status : Int} (hs : status ∈ routedStatuses)
    (hn : Names st.event (lastAnswer status g.sent)) (b : Bytes) (ok : Bool) :
    Told k J seen { st.event with status := status } (g.speak status b ok) := by
  refine ⟨h.toFacts.closing status h.usage _, h.kept, .inr ⟨h.typed, ?_⟩, hs, ⟨fun hset => ?_,
    fun _ _ => h.used⟩, hn⟩
  · simp [Sheet.speak, h.quiet]
  · unfold lastAnswer at hset ⊢
    split
    · rename_i h500
      rw [if_pos h500] at hset
      exact hset.elim
    · rename_i h500
      rw [if_neg h500] at hset
      exact (h.reports hset).weaken _

/-- A request that ends between two routes. -/
theorem Going.told (h : Going k J seen st g) {status : Int} (hs : status ∈ routedStatuses)
    (b : Bytes) (ok : Bool) :
    Told k J seen { st.event with status := status } (g.speak status b ok) := by
  refine h.toUnderway.told hs ?_ b ok
  unfold lastAnswer
  split
  · exact fun x hx => nomatch hx
  · exact h.names

theorem wp_settleUnknown {Q : Bool → Sheet → Prop}
    (h : ∀ settled time, Q settled { g with time := time }) :
    (account k.srv A).wp Q (settleUnknown k) g := by
  unfold settleUnknown
  split
  · exact h false g.time
  · simp only [Monitor.wp_bind_iff, wp_now, wp_finishKey]
    refine fun t _ => ⟨?_, h true (some t)⟩
    rintro ⟨⟩

theorem wp_settleDone {e : IdemEntry} {Q : Bool → Sheet → Prop}
    (hcredit : ∃ x, g.sent.head? = some x ∧ Credits k.srv.lib x)
    (h : ∀ settled time, Q settled { g with time := time }) :
    (account k.srv A).wp Q (settleDone k e) g := by
  unfold settleDone
  split
  · exact h false g.time
  · simp only [Monitor.wp_bind_iff, wp_now, wp_finishKey]
    exact fun t _ => ⟨fun _ => hcredit, h true (some t)⟩

@[simp] theorem wp_observeBudget {finish text : String} {Q : Unit → Sheet → Prop} :
    (account k.srv A).wp Q (observeBudget k route finish text) g ↔ Q () g := by
  unfold observeBudget
  split
  · simp
  · simp

@[simp] theorem wp_emptyAnswer {reasoning : Int} {Q : Flow → Sheet → Prop} :
    (account k.srv A).wp Q (emptyAnswer k route st reasoning) g ↔
      Q (.next { st with empties := st.empties ++
        [⟨route.provider, route.model, k.chat.maxTokens, reasoning⟩] }) g := by
  simp [emptyAnswer]

/-- A request that has just got an outcome. -/
structure Got (k : Inference) (J : Job) (seen : List Route) (route : Route) (st : Loop)
    (u : Upstream) (o : Outcome) (g : Sheet) : Prop
    extends Facts J.base k.srv.c.maxAttempts J.policy seen st.event where
  kept : g.could = J.could ∧ g.prior = J.prior
  attempted : 0 < st.event.attempts
  quiet : g.shown = none
  heard : g.lost = false
  last : g.sent.head? = some (u, o)
  older : st.event.usage = owed g.sent.tail
  naming : st.event.provider = route.provider ∧ st.event.model = route.model
  route : u.route = route
  stream : u.sent.stream = k.chat.stream

variable {u : Upstream} {o : Outcome}

theorem Got.sent (h : Got k J seen route st u o g) : g.sent = (u, o) :: g.sent.tail := by
  have hl := h.last
  cases hs : g.sent with
  | nil => simp [hs] at hl
  | cons x xs =>
    simp only [hs, List.head?_cons, Option.some.injEq] at hl
    rw [hl, List.tail_cons]

/-- The event names the route that this answer came from. -/
theorem Got.names {event : Event} (h : Got k J seen route st u o g)
    (he : event.provider = st.event.provider ∧ event.model = st.event.model) :
    Names event (some (u, o)) := by
  intro x hx
  cases hx
  rw [h.route]
  exact ⟨he.1.trans h.naming.1, he.2.trans h.naming.2⟩

/-- An answer that leaves the usage alone leaves it as it was. -/
theorem Got.unset (h : Got k J seen route st u o g)
    (ho : owed ((u, o) :: g.sent.tail) = owed g.sent.tail) : st.event.usage = owed g.sent := by
  rw [h.sent, ho]
  exact h.older

/-- An outcome that is passed over: a refusal, or an answer without content. -/
theorem Got.going {st' : Loop} (h : Got k J seen route st u o g)
    (hfacts : Facts J.base k.srv.c.maxAttempts J.policy seen st'.event)
    (htyped : ¬ Mistyped k.srv.lib (some (u, o))) (hused : st'.event.usage = owed g.sent)
    (hsame : Sets k.srv.lib (some (u, o)) →
      Reports k.srv.lib false st'.event.usage (some (u, o)))
    (hnamed : st'.event.provider = st.event.provider ∧ st'.event.model = st.event.model) :
    Going k J seen st' (g.touch route.provider) := by
  refine ⟨⟨hfacts, h.kept, h.quiet, h.heard, ?_, hused, ?_⟩, ?_⟩
  · simpa [Sheet.touch, h.last] using htyped
  · simpa [Sheet.touch, h.last] using hsame
  · have hlast : (g.touch route.provider).sent.head? = some (u, o) := h.last
    rw [hlast]
    exact h.names hnamed

/-- A request that ends with an outcome. -/
theorem Got.told {event : Event} {g' : Sheet} (h : Got k J seen route st u o g)
    (hfacts : Facts J.base k.srv.c.maxAttempts J.policy seen event) (hsent : g'.sent = g.sent)
    (hkept : g'.could = g.could ∧ g'.prior = g.prior)
    (hs : event.status ∈ routedStatuses)
    (hshows : Mistyped k.srv.lib (some (u, o)) ∧ event.status = 200 ∧ g'.shown = some 502 ∨
      ¬ Mistyped k.srv.lib (some (u, o)) ∧ g'.shown = some event.status)
    (hanswered : event.status ≠ 500)
    (hused : Charged k.srv.lib g'.lost event.usage (some (u, o)) g.sent)
    (hnamed : event.provider = st.event.provider ∧ event.model = st.event.model) :
    Told k J seen event g' := by
  have hlast : g'.sent.head? = some (u, o) := by rw [hsent]; exact h.last
  refine ⟨hfacts, ⟨hkept.1.trans h.kept.1, hkept.2.trans h.kept.2⟩, ?_, hs, ?_, ?_⟩
  · unfold Shows
    rw [hlast]
    exact hshows
  · rw [lastAnswer, if_neg hanswered, hlast, hsent]
    exact hused
  · rw [lastAnswer, if_neg hanswered, hlast]
    exact h.names hnamed

theorem acceptStream_spec {retryAfter contentType : String} {body : Body} (hs : k.chat.stream = true)
    (h : Got k J seen route st u (.response 200 retryAfter contentType body) g) :
    (account k.srv A).wp (After k J seen sure due) (acceptStream k route st contentType body)
      g := by
  have hstream : u.sent.stream = true := h.stream.trans hs
  have hvalid : ∀ {b : Body}, streamBody k.srv.lib route contentType body = some b →
      (ValidAnswer k.srv.lib u contentType body ↔
        (follow route.provider false {} (readSSE b).1).1 = true) := by
    intro b hb
    simp [ValidAnswer, hstream, h.route, hb]
  have hmis : Mistyped k.srv.lib (some (u, .response 200 retryAfter contentType body)) ↔
      streamBody k.srv.lib route contentType body = none := by
    simp [Mistyped, hstream, h.route]
  refine Monitor.wp_seq (Monitor.wp_returns (Monitor.wp_returns (Monitor.wp_returns
    (stream_spec k route contentType body h.heard) (stream_returns k route _ _)) (stream_ends k route _ _))
    (Usage.stream_fits k route _ _)) ?_
  rintro ⟨out, stop⟩ g' ⟨⟨⟨hr, hempty⟩, hends⟩, hfits⟩
  obtain ⟨hsent, hkept⟩ := hr.kept
  have hhead : g'.sent.head? = some (u, .response 200 retryAfter contentType body) := by
    rw [hsent]
    exact h.last
  have hused : ∀ time, stop ≠ .empty → Charged k.srv.lib
      { g'.touch route.provider with time := time }.lost out.usage
      (some (u, .response 200 retryAfter contentType body)) g.sent := by
    intro time hne
    refine ⟨fun hset => ?_, fun hset hheld => ?_⟩
    · have hnot : ¬ HeldBack k.srv.lib u contentType body := by
        intro hh
        simp only [Sets, hstream, if_true] at hset
        exact hset.2 hh.empty
      simp only [Reports, hstream, h.route, ne_eq, not_true_eq_false, if_false, if_true]
      split
      · rename_i hb
        exact (hr.mistyped hb).2.1
      · rename_i b hb
        refine hr.used b hb ?_
        simpa [HeldBack, hstream, h.route, hb] using hnot
    · simp only [Sets, hstream, if_true, true_and, not_not, EmptyAnswer, h.route] at hset
      obtain ⟨b, reasons, hb, ha, hreasons, hall⟩ := hset
      refine absurd (hends b reasons hb ha hreasons hall ?_) hne
      simpa [Withheld, HeldBack, hstream, h.route, hb] using hheld
  have htold : ∀ time streamFailed, stop ≠ .empty → Told k J seen
      { st.event with status := 200, usage := out.usage, streamFailed := streamFailed }
      { g'.touch route.provider with time := time } := by
    intro time streamFailed hne
    refine h.told (h.toFacts.closing _ hfits _) hsent hkept (show (200 : Int) ∈ routedStatuses by decide) ?_
      (show (200 : Int) ≠ 500 by decide) (hused time hne) ⟨rfl, rfl⟩
    by_cases hb : streamBody k.srv.lib route contentType body = none
    · obtain ⟨-, -, s, ok, rfl⟩ := hr.mistyped hb
      exact .inl ⟨hmis.mpr hb, rfl, by simp [Sheet.touch, Sheet.speak, h.quiet]⟩
    · obtain ⟨s, ok, rfl⟩ := hr.aired hb hne
      exact .inr ⟨fun hm => hb (hmis.mp hm), by simp [Sheet.touch, Sheet.speak, h.quiet]⟩
  have hcredit : isFailed stop = false →
      (account k.srv A).ok g' (.settle route.provider (.result false)) := by
    intro hf
    obtain ⟨b, hb, hgood⟩ := hr.good hf
    exact ⟨_, hhead, congrArg Route.provider h.route, rfl, (hvalid hb).mpr hgood⟩
  cases stop with
  | empty =>
    obtain rfl : g' = g := hr.empty rfl
    obtain ⟨b, reasons, hb, ha, hne, hall⟩ := hempty rfl
    have hemptied : EmptyAnswer k.srv.lib u contentType body := by
      simp only [EmptyAnswer, hstream, h.route, if_true]
      exact ⟨b, reasons, hb, ha, hne, hall⟩
    simp only [Monitor.wp_bind_iff, wp_settle, wp_emptyAnswer]
    refine ⟨hcredit rfl, h.going h.toFacts (fun hm => ?_) (h.unset (by simp [owed, hstream])) ?_
      ⟨rfl, rfl⟩, .inl h.attempted⟩
    · simp [hmis.mp hm] at hb
    · intro hset
      simp only [Sets, hstream, if_true] at hset
      exact absurd hemptied hset.2
  | failed e =>
    simp only [Monitor.wp_bind_iff, wp_settle]
    refine ⟨⟨_, hhead, congrArg Route.provider h.route, .inr (.inr ⟨rfl, ?_⟩)⟩, ?_⟩
    · by_cases hb : streamBody k.srv.lib route contentType body = none
      · exact .inl (by simp [ValidAnswer, hstream, h.route, hb])
      · obtain ⟨b, hb⟩ := Option.ne_none_iff_exists'.mp hb
        cases hl : g'.lost with
        | true => exact .inr (.inl rfl)
        | false =>
          cases hh : heldBack route.provider (readSSE b).1 with
          | true => exact .inr (.inr ⟨hstream, b, by rw [h.route]; exact ⟨hb, hh⟩⟩)
          | false =>
            left
            rw [hvalid hb, hr.bad rfl hl b hb hh]
            simp
    · exact wp_settleUnknown (fun settled time => ⟨htold time true (by simp), h.attempted⟩)
  | complete =>
    simp only [Monitor.wp_bind_iff, wp_settle, wp_observeBudget, wp_tellIf, closing]
    obtain ⟨x, hx, hprovider, hgood⟩ := hcredit rfl
    exact ⟨⟨x, hx, hprovider, hgood⟩, wp_settleDone ⟨x, hx, hgood⟩ (fun settled time =>
      ⟨htold time st.event.streamFailed (by simp), h.attempted⟩)⟩

/-- A response that was not understood: the outcome is recorded as unknown and the client
is told. -/
theorem unknown_fail_spec {status : Int} {msg : String} {event : Event}
    (htold : ∀ time b ok, Told k J seen { event with status := status }
      ({ g with time := time }.speak status b ok)) (ha : 0 < event.attempts) :
    (account k.srv A).wp (After k J seen sure due)
      (settleUnknown k >>= fun settled => FlowOf.done <$> fail event settled status msg) g := by
  rw [Monitor.wp_bind_iff]
  refine wp_settleUnknown (fun settled time => ?_)
  rw [wp_map, wp_fail]
  exact fun ok => ⟨htold time _ ok, ha⟩

theorem acceptWhole_spec {retryAfter contentType : String} {body : Body} (hs : k.chat.stream = false)
    (h : Got k J seen route st u (.response 200 retryAfter contentType body) g) :
    (account k.srv A).wp (After k J seen sure due) (acceptWhole k route st body) g := by
  have hstream : u.sent.stream = false := h.stream.trans hs
  have hmis : ¬ Mistyped k.srv.lib (some (u, .response 200 retryAfter contentType body)) := by
    simp [Mistyped, hstream]
  have htold : ∀ status usage time b ok, status ∈ routedStatuses → status ≠ 500 → Fits usage →
      (∀ lost, Charged k.srv.lib lost usage (some (u, .response 200 retryAfter contentType body))
        g.sent) →
      Told k J seen { st.event with usage := usage, status := status }
        ({ g.touch route.provider with time := time }.speak status b ok) := by
    intro status usage time b ok hstatus hne hfits hcharged
    refine h.told (h.toFacts.closing _ hfits _) rfl ⟨rfl, rfl⟩ hstatus (.inr ⟨hmis, ?_⟩) hne (hcharged _)
      ⟨rfl, rfl⟩
    simp [Sheet.touch, Sheet.speak, h.quiet]
  unfold acceptWhole
  split
  · rename_i hbody
    rw [Monitor.wp_bind_iff, wp_settle]
    refine ⟨⟨_, h.last, congrArg Route.provider h.route, .inr (.inr ⟨rfl, .inl ?_⟩)⟩, ?_⟩
    · simp [ValidAnswer, hstream, hbody]
    · refine unknown_fail_spec (fun time b ok => htold 502 _ time b ok (by decide) (by decide) h.usage
        ?_) h.attempted
      exact fun lost => ⟨fun hset => absurd hset (by simp [Sets, hstream, hbody]),
        fun _ _ => h.unset (by simp [owed, hbody])⟩
  · rename_i data hdata
    have hreports : ∀ lost, Reports k.srv.lib lost (usageOf (normalize route.provider data false).n)
        (some (u, .response 200 retryAfter contentType body)) := by
      intro lost
      simp [Reports, hstream, hdata, h.route]
    have hsets : Sets k.srv.lib (some (u, .response 200 retryAfter contentType body)) := by
      simp [Sets, hstream, hdata]
    have hcharged : ∀ lost, Charged k.srv.lib lost (usageOf (normalize route.provider data false).n)
        (some (u, .response 200 retryAfter contentType body)) g.sent :=
      fun lost => ⟨fun _ => hreports lost, fun hn => absurd hsets hn⟩
    have hfits : Fits (usageOf (normalize route.provider data false).n) := Usage.normalize_fits _ _ _
    have hvalid : ValidAnswer k.srv.lib u contentType body ↔
        (normalize route.provider data false).err = none := by
      simp [ValidAnswer, hstream, hdata, h.route]
    dsimp only
    rw [Monitor.wp_bind_iff, wp_tellIf (by rfl), Monitor.wp_bind_iff, wp_settle]
    cases herr : (normalize route.provider data false).err with
    | some e =>
      refine ⟨⟨_, h.last, congrArg Route.provider h.route, .inr (.inr ⟨rfl, .inl ?_⟩)⟩, ?_⟩
      · simp [hvalid, herr]
      · simp only [Option.isSome_some, if_true]
        exact unknown_fail_spec (fun time b ok => htold 502 _ time b ok (by decide) (by decide) hfits
          hcharged) h.attempted
    | none =>
      refine ⟨⟨_, h.last, congrArg Route.provider h.route, rfl, hvalid.mpr herr⟩, ?_⟩
      simp only [Option.isSome_none, Bool.false_eq_true, if_false]
      split
      · rename_i hempty
        rw [wp_emptyAnswer]
        have howed : usageOf (normalize route.provider data false).n = owed g.sent := by
          rw [h.sent]
          simp [owed, hstream, hdata, h.route]
        exact ⟨h.going (h.toFacts.closing _ hfits _) hmis howed (fun _ => hreports false) ⟨rfl, rfl⟩,
          .inl h.attempted⟩
      · unfold answer
        simp only [Monitor.wp_bind_iff, wp_observeBudget, wp_tellIf, closing]
        refine wp_settleDone ⟨_, h.last, rfl, hvalid.mpr herr⟩ (fun settled time => ?_)
        simp only [wp_setHeader, wp_write]
        exact fun ok => ⟨htold 200 _ time _ ok (by decide) (by decide) hfits hcharged, h.attempted⟩

theorem accepted_spec {retryAfter contentType : String} {body : Body}
    (h : Got k J seen route st u (.response 200 retryAfter contentType body) g) :
    (account k.srv A).wp (After k J seen sure due) (accepted k route st contentType body) g := by
  unfold accepted
  rw [Monitor.wp_bind_iff, wp_tell (by rfl), Monitor.wp_bind_iff, wp_setHeader, Monitor.wp_bind_iff,
    wp_setHeader]
  split
  · rename_i hs
    exact acceptStream_spec hs h
  · rename_i hs
    exact acceptWhole_spec (by simpa using hs) h

/-- The same route again, where that is possible. -/
def Continues (A : Assume) (k : Inference) (J : Job) (seen : List Route) (sure : List String)
    (due : Prop) : Option (Loop → M Flow) → Prop
  | none => True
  | some again => ∀ st g, Going k J seen st g → 0 < st.event.attempts →
      (account k.srv A).wp (After k J seen sure due) (again st) g

variable {again : Option (Loop → M Flow)}

theorem leaveAlone_spec {delay : Int} (h : Going k J seen st (g.touch route.provider))
    (ha : 0 < st.event.attempts) :
    (account k.srv A).wp (After k J seen sure due) (rateLimited.leaveAlone route st delay) g := by
  unfold rateLimited.leaveAlone
  split
  · simpa only [Monitor.wp_bind_iff, wp_settle] using ⟨trivial, h, .inl ha⟩
  · simpa only [Monitor.wp_bind_iff, wp_settle] using ⟨trivial, h, .inl ha⟩

theorem rateLimited_spec {delay : Int} (hagain : Continues A k J seen sure due again)
    (h : Going k J seen st (g.touch route.provider)) (ha : 0 < st.event.attempts) :
    (account k.srv A).wp (After k J seen sure due) (rateLimited k route again st delay) g := by
  unfold rateLimited
  rw [Monitor.wp_bind_iff, wp_tell (by rfl)]
  dsimp only
  cases again with
  | none => exact leaveAlone_spec h ha
  | some again =>
    dsimp only
    split
    · rw [Monitor.wp_bind_iff, wp_settle]
      refine ⟨trivial, ?_⟩
      rw [Monitor.wp_bind_iff, wp_tell (by rfl), Monitor.wp_bind_iff, wp_ask (by simp)]
      intro passed
      split
      · exact hagain st _ h ha
      · rw [wp_map, wp_fail]
        exact fun ok => ⟨h.told (by decide) _ ok, ha⟩
    · exact leaveAlone_spec h ha

theorem terminal_spec {status : Int} {retryAfter contentType : String} {body : Body}
    (hs : status ≠ 200) (hc : classify status (body.bytes.take 65536) = .terminal)
    (h : Got k J seen route st u (.response status retryAfter contentType body) g) :
    (account k.srv A).wp (After k J seen sure due)
      (terminal route st status (body.bytes.take 65536)) g := by
  have hgoing : Going k J seen st (g.touch route.provider) := by
    exact h.going h.toFacts (by simp [Mistyped, hs]) (h.unset (by simp [owed, hs]))
      (fun hset => absurd hset.1 hs) ⟨rfl, rfl⟩
  unfold terminal
  split
  · rw [Monitor.wp_bind_iff, wp_settle, wp_map, wp_fail]
    exact ⟨trivial, fun ok => ⟨hgoing.told (by decide) _ ok, h.attempted⟩⟩
  · rename_i hcf
    rw [Monitor.wp_bind_iff, wp_settle, wp_map, wp_fail]
    refine ⟨⟨_, h.last, congrArg Route.provider h.route, .inr (.inl ⟨hs, hc, by simpa using hcf⟩)⟩, ?_⟩
    exact fun ok => ⟨hgoing.told (by decide) _ ok, h.attempted⟩

theorem refused_spec {status : Int} {retryAfter contentType : String} {body : Body}
    (hs : status ≠ 200) (hagain : Continues A k J seen sure due again)
    (h : Got k J seen route st u (.response status retryAfter contentType body) g) :
    (account k.srv A).wp (After k J seen sure due)
      (refused k route again st status retryAfter body) g := by
  unfold refused
  rw [Monitor.wp_bind_iff, wp_now]
  intro t _
  dsimp only
  generalize hf : classify status (body.bytes.take 65536) = f
  have hgot : Got k J seen route { st with event := { st.event with fault := f.string } } u
      (.response status retryAfter contentType body) { g with time := some t } :=
    ⟨h.toFacts.classified f, h.kept, h.attempted, h.quiet, h.heard, h.last, h.older, h.naming, h.route,
      h.stream⟩
  have hgoing := hgot.going hgot.toFacts (by simp [Mistyped, hs]) (hgot.unset (by simp [owed, hs]))
    (fun hset => absurd hset.1 hs) ⟨rfl, rfl⟩
  cases f with
  | account =>
    simp only [Monitor.wp_bind_iff, wp_tell, wp_settle, closing]
    exact ⟨trivial, hgoing, .inl h.attempted⟩
  | rateLimit => exact rateLimited_spec hagain hgoing h.attempted
  | degraded =>
    have hstatus : status = 503 := by
      unfold classify at hf
      split at hf
      · assumption
      · repeat' (split at hf)
        all_goals cases hf
    simp only [Monitor.wp_bind_iff, wp_tell, wp_settle, closing]
    refine ⟨⟨_, h.last, congrArg Route.provider h.route, .inl hstatus⟩, ?_⟩
    split
    · simp only [Monitor.wp_bind_iff, wp_settle]
      exact ⟨trivial, hgoing.same ⟨rfl, rfl⟩ rfl rfl rfl,
        .inl h.attempted⟩
    · exact ⟨hgoing, .inl h.attempted⟩
  | refused =>
    simp only [Monitor.wp_bind_iff, wp_tell, wp_settle, closing]
    exact ⟨trivial, hgoing, .inl h.attempted⟩
  | terminal => exact terminal_spec hs hf hgot

theorem conclude_spec (hagain : Continues A k J seen sure due again)
    (h : Got k J seen route st u o g) :
    (account k.srv A).wp (After k J seen sure due) (conclude k route again st o) g := by
  cases o with
  | failed =>
    have htold : ∀ gone time b ok, Told k J seen { st.event with status := 502 }
        ({ { g with gone := gone }.touch route.provider with time := time }.speak 502 b ok) := by
      intro gone time b ok
      refine h.told (h.toFacts.closing _ h.usage _) rfl ⟨rfl, rfl⟩ (show (502 : Int) ∈ routedStatuses by decide)
        (.inr ⟨by simp [Mistyped], ?_⟩) (show (502 : Int) ≠ 500 by decide)
        ⟨fun hset => hset.elim, fun _ _ => h.unset rfl⟩ ⟨rfl, rfl⟩
      simp [Sheet.touch, Sheet.speak, h.quiet]
    unfold conclude
    rw [Monitor.wp_bind_iff, wp_clientGone]
    intro gone
    cases gone with
    | true =>
      simp only [if_true]
      rw [Monitor.wp_bind_iff, wp_settle]
      exact ⟨trivial, unknown_fail_spec (htold (some true)) h.attempted⟩
    | false =>
      simp only [Bool.false_eq_true, if_false]
      rw [Monitor.wp_bind_iff, wp_settle]
      exact ⟨⟨_, h.last, congrArg Route.provider h.route, rfl⟩,
        unknown_fail_spec (htold (some false)) h.attempted⟩
  | response status retryAfter contentType body =>
    rw [conclude]
    by_cases hs : status = 200
    · subst hs
      exact accepted_spec h
    · rw [if_pos hs]
      exact refused_spec hs hagain h

/-- A request goes out to a provider. -/
theorem Underway.got (h : Underway k J seen st g) (ha : 0 < st.event.attempts)
    (hn : st.event.provider = route.provider ∧ st.event.model = route.model) (hr : u.route = route)
    (hs : u.sent.stream = k.chat.stream) :
    Got k J seen route st u o { g with sent := (u, o) :: g.sent, gone := none } :=
  ⟨h.toFacts, h.kept, ha, h.quiet, h.heard, rfl, h.used, hn, hr, hs⟩

theorem account_ignores_preparing (o : Op) (h : Preparing o) : (account k.srv A).Ignored o := by
  cases o with
  | ask a => cases a <;> first | exact fun _ => ⟨trivial, fun _ => rfl⟩ | cases h
  | tell t => cases t <;> first | exact fun _ => ⟨nofun, fun _ => rfl⟩ | cases h
  | setHeader name value => exact fun _ => ⟨trivial, fun _ => rfl⟩
  | _ => cases h

theorem wp_upstream {c : Chat} {pc : ProviderConfig} {Q : Option Upstream → Sheet → Prop}
    (hnone : Q none g) (hsome : ∀ u, u.route = route → u.sent = c → Q (some u) g) :
    (account k.srv A).wp Q (upstream k.srv c route pc) g := by
  have hsign : ∀ u, (account k.srv A).Ignored (.sign u) := fun u _ => ⟨trivial, fun _ => rfl⟩
  refine (does_upstream hsign).wp_ignored (fun o ho => ?_)
  cases o with
  | none => exact hnone
  | some u => exact hsome u (ho u rfl).1 (ho u rfl).2

theorem adapterFailed_spec (h : Underway k J seen st g) (ha : 0 < st.event.attempts) :
    (account k.srv A).wp (After k J seen sure due) (adapterFailed route st) g := by
  have hgoing : Underway k J seen st (g.touch route.provider) :=
    h.same ⟨rfl, rfl⟩ rfl rfl rfl
  unfold adapterFailed
  rw [Monitor.wp_bind_iff, wp_settle, wp_map, wp_fail]
  exact ⟨trivial, fun ok => ⟨hgoing.told (by decide) (by simp [lastAnswer, Names]) _ ok, ha⟩⟩

/-- A provider that refuses the temperature has refused the request. -/
theorem Got.temperature {c : Chat} (h : Got k J seen route st u o g)
    (ht : refusesTemperature c o = true) : Underway k J seen st g := by
  cases o with
  | failed => cases ht
  | response status retryAfter contentType body =>
    simp only [refusesTemperature, Bool.and_eq_true, decide_eq_true_eq] at ht
    have hs : status ≠ 200 := by omega
    refine ⟨h.toFacts, h.kept, h.quiet, h.heard, ?_, h.unset (by simp [owed, hs]), ?_⟩
    · simp [h.last, Mistyped, hs]
    · simp [h.last, Sets, hs]

theorem exchange_spec {pc : ProviderConfig} {sent : Chat}
    (hagain : Continues A k J seen sure due again) (hs : sent.stream = k.chat.stream)
    (h : Underway k J seen st g) (ha : 0 < st.event.attempts)
    (hn : st.event.provider = route.provider ∧ st.event.model = route.model) :
    (account k.srv A).wp (After k J seen sure due) (exchange k route pc again st sent) g := by
  unfold exchange
  rw [Monitor.wp_bind_iff]
  refine wp_upstream (adapterFailed_spec h ha) ?_
  intro u hroute hsent
  dsimp only
  rw [Monitor.wp_bind_iff, wp_send]
  intro o
  have hgot : Got k J seen route st (withRequestID k.id u) o _ :=
    h.got ha hn hroute ((congrArg Chat.stream hsent).trans hs)
  split
  · rename_i ht
    have hgoing := hgot.temperature ht
    rw [Monitor.wp_bind_iff, wp_tell (by rfl), Monitor.wp_bind_iff, wp_tell (by rfl), Monitor.wp_bind_iff]
    refine wp_upstream (adapterFailed_spec hgoing ha) ?_
    intro u' hroute' hsent'
    dsimp only
    rw [Monitor.wp_bind_iff, wp_send]
    intro o'
    exact conclude_spec hagain (hgoing.got ha hn hroute' ((congrArg Chat.stream hsent').trans hs))
  · exact conclude_spec hagain hgot

theorem pace_spec (sure : List String) (due : Prop) (h : Going k J seen st g) :
    (account k.srv A).wp (fun flow g' => (flow = none → Going k J seen st g') ∧
      ∀ f, flow = some f → After k J seen sure due f g') (pace route st) g := by
  unfold pace
  split
  · exact ⟨fun _ => h, by simp⟩
  · rename_i ha
    have ha : 0 < st.event.attempts := by omega
    rw [Monitor.wp_bind_iff, wp_ask (by simp)]
    intro allowed
    split
    · rw [Monitor.wp_bind_iff, wp_tell (by rfl), Monitor.wp_bind_iff, wp_now]
      intro t _
      have hgoing : Going k J seen st { g with time := some t } :=
        h.same ⟨rfl, rfl⟩ rfl rfl rfl
      rw [Monitor.wp_bind_iff, wp_ask (by simp)]
      intro passed
      split
      · exact ⟨fun _ => hgoing, by simp⟩
      · rw [Monitor.wp_bind_iff, wp_settle, wp_map, wp_fail]
        refine ⟨trivial, fun ok => ⟨by simp, fun f hf => ?_⟩⟩
        cases hf
        have htouched : Going k J seen st ({ g with time := some t }.touch route.provider) :=
          h.same ⟨rfl, rfl⟩ rfl rfl rfl
        exact ⟨htouched.told (by decide) _ ok, ha⟩
    · rw [Monitor.wp_bind_iff, wp_settle]
      refine ⟨trivial, by simp, fun f hf => ?_⟩
      cases hf
      exact ⟨h.same ⟨rfl, rfl⟩ rfl rfl rfl, .inl ha⟩

theorem Facts.attempting {base : Event} {limit : Int} {p : Policy}
    (h : Facts base limit p seen st.event) (hr : route ∈ p.routes) (hl : st.event.attempts < limit) :
    Facts base limit p seen (st.attempting route).event := by
  have ha := h.nonneg
  refine ⟨h.core, h.replayed, h.version, ?_, fun _ => ?_, fun hz => ?_, fun _ => ⟨route, hr, rfl, rfl⟩,
    h.fault, h.skipped, h.usage⟩
  all_goals
    simp only [Loop.attempting] at *
    omega

/-- The route must be tried: nothing speaks against it, and its provider is sure to let
the request in. -/
def Due (A : Assume) (k : Inference) (sure : List String) (route : Route) (skip : Bool) : Prop :=
  A.alone ∧ skip = false ∧ (k.srv.c.providers.lookup route.provider).isSome = true ∧
    route.provider ∈ sure

/-- Nothing was tried here, and nothing had to be. -/
theorem idle {skip : Bool} (hsure : 0 < st.event.attempts ∨ g.sure = sure)
    (hdue : due → 0 < st.event.attempts ∨ Due A k sure route skip)
    (hnot : ¬ Due A k g.sure route skip) : Idle sure due st g := by
  by_cases ha : 0 < st.event.attempts
  · exact .inl ha
  · have hsame : g.sure = sure := hsure.resolve_left ha
    refine .inr ⟨hsame, fun hd => ?_⟩
    rcases hdue hd with h | h
    · exact ha h
    · exact hnot (hsame ▸ h)

theorem attempt_spec {pc : ProviderConfig} (skip : Bool) (hr : route ∈ J.policy.routes)
    (hagain : Continues A k J seen sure due again) (h : Going k J seen st g)
    (hsure : 0 < st.event.attempts ∨ g.sure = sure)
    (hdue : due → 0 < st.event.attempts ∨ Due A k sure route skip) :
    (account k.srv A).wp (After k J seen sure due) (attempt k route pc again st) g := by
  unfold attempt
  split
  · rename_i hl
    have ha := h.nonneg
    exact ⟨h, by omega⟩
  rename_i hl
  split
  · rename_i hno
    simp [streams] at hno
  rw [Monitor.wp_bind_iff, wp_allow]
  refine ⟨fun hnot => ⟨h, idle hsure hdue (fun hd => hnot hd.1 hd.2.2.2)⟩, ?_⟩
  simp only [if_true]
  have hgoing : Going k J seen st (g.touch route.provider) := h.same ⟨rfl, rfl⟩ rfl rfl rfl
  refine Monitor.wp_seq (pace_spec sure due hgoing) ?_
  intro flow g' hflow
  cases flow with
  | some f => exact hflow.2 f rfl
  | none =>
    have hgo := hflow.1 rfl
    dsimp only
    rw [Monitor.wp_bind_iff]
    refine (does_prepare.relax account_ignores_preparing).wp_ignored
      (fun sent hs => exchange_spec hagain hs ?_ ?_ ⟨rfl, rfl⟩)
    · exact ⟨hgo.toFacts.attempting hr (by omega), hgo.kept, hgo.quiet, hgo.heard, hgo.typed, hgo.used, hgo.reports⟩
    · have ha := h.nonneg
      simp only [Loop.attempting]
      omega

theorem Going.more (h : Going k J seen st g) (route : Route) : Going k J (seen ++ [route]) st g :=
  ⟨⟨h.toFacts.more route, h.kept, h.quiet, h.heard, h.typed, h.used, h.reports⟩, h.names⟩

theorem visit_spec {skip : Bool} (hr : route ∈ J.policy.routes) (h : Going k J seen st g) :
    (account k.srv A).wp
      (After k J (seen ++ [route]) g.sure (0 < st.event.attempts ∨ Due A k g.sure route skip))
      (visit k route skip st) g := by
  have hmore := h.more route
  unfold visit turn
  split
  · rename_i hnone
    exact ⟨hmore, idle (.inr rfl) (fun hd => hd) (fun hd => by simp [Due, hnone] at hd)⟩
  · split
    · rename_i hskip
      rw [Monitor.wp_bind_iff, wp_tell (by rfl)]
      refine ⟨⟨⟨?_, h.kept, h.quiet, h.heard, h.typed, h.used, h.reports⟩, h.names⟩,
        idle (.inr rfl) (fun hd => hd) (fun hd => by simp [Due, hskip] at hd)⟩
      refine ⟨h.core, h.replayed, h.version, h.nonneg, h.bounded, h.unnamed, h.named, h.fault, ?_,
        h.usage⟩
      rw [List.map_append]
      exact h.skipped.append (List.Sublist.refl [label route])
    · rename_i hskip
      refine attempt_spec skip hr (fun st g hgo ha => ?_) hmore (.inr rfl) (fun hd => hd)
      exact attempt_spec skip hr trivial hgo (.inl ha) (fun _ => .inl ha)

theorem exhausted_spec (h : Going k J seen st g) :
    (account k.srv A).wp (fun e g' => Told k J seen e.event g' ∧ e.event.attempts = st.event.attempts)
      (exhausted k st) g := by
  unfold exhausted
  rw [Monitor.wp_bind_iff, wp_setHeader]
  split
  · rw [Monitor.wp_bind_iff, wp_tell (by rfl), wp_fail]
    exact fun ok => ⟨h.told (by decide) _ ok, rfl⟩
  · rw [wp_fail]
    exact fun ok => ⟨h.told (by decide) _ ok, rfl⟩

theorem Told.more (h : Told k J seen event g) (rest : List Route) : Told k J (seen ++ rest) event g := by
  refine ⟨⟨h.core, h.replayed, h.version, h.nonneg, h.bounded, h.unnamed, h.named, h.fault, ?_, h.usage⟩,
    h.kept, h.shows, h.status, h.used, h.names⟩
  rw [List.map_append]
  exact h.skipped.trans (List.sublist_append_left _ _)

/-- The whole loop. If some route must be tried, one is. -/
theorem routeLoop_spec (hmax : A.alone → 0 < k.srv.c.maxAttempts) (rest : List (Route × Bool))
    (seen : List Route) (hroutes : J.policy.routes = seen ++ rest.map Prod.fst) (st : Loop) (g : Sheet)
    (h : Going k J seen st g) (hope : Prop)
    (hdue : hope → A.alone ∧ (0 < st.event.attempts ∨ ∃ r ∈ rest, Due A k g.sure r.1 r.2)) :
    (account k.srv A).wp (fun e g' => Told k J J.policy.routes e.event g' ∧
      (hope → 0 < e.event.attempts)) (routeLoop k rest st) g := by
  induction rest generalizing seen st g with
  | nil =>
    refine Monitor.wp_mono (exhausted_spec h) ?_
    intro e g' he
    refine ⟨?_, fun hh => ?_⟩
    · rw [hroutes]
      exact he.1.more _
    · rcases (hdue hh).2 with ha | ⟨r, hr, -⟩
      · rw [he.2]
        exact ha
      · cases hr
  | cons r rest ih =>
    obtain ⟨route, skip⟩ := r
    have hmem : route ∈ J.policy.routes := by simp [hroutes]
    have hmore : J.policy.routes = (seen ++ [route]) ++ rest.map Prod.fst := by simp [hroutes]
    refine Monitor.wp_seq (visit_spec hmem h) ?_
    intro flow g' hflow
    cases flow with
    | next st' =>
      obtain ⟨hgo, hidle⟩ := hflow
      refine ih (seen ++ [route]) hmore st' g' hgo (fun hh => ?_)
      obtain ⟨halone, hd⟩ := hdue hh
      refine ⟨halone, ?_⟩
      rcases hidle with ha | ⟨hsure, hnot⟩
      · exact .inl ha
      · rcases hd with ha | ⟨r, hr, hd⟩
        · exact absurd (.inl ha) hnot
        · rcases List.mem_cons.mp hr with rfl | hr
          · exact absurd (.inr hd) hnot
          · exact .inr ⟨r, hr, hsure ▸ hd⟩
    | stop st' =>
      obtain ⟨hgo, ha⟩ := hflow
      refine Monitor.wp_mono (exhausted_spec hgo) ?_
      intro e g'' he
      refine ⟨?_, fun hh => ?_⟩
      · rw [hmore]
        exact he.1.more _
      · have := hmax (hdue hh).1
        rw [he.2]
        omega
    | done e =>
      obtain ⟨htold, ha⟩ := hflow
      exact ⟨by rw [hmore]; exact htold.more _, fun _ => ha⟩
    | again a => cases a

end

end Switchboard.Proofs.Tally
