import Switchboard.Gateway.Relay

namespace Switchboard.Gateway
open Text

/-- The headers of a request that are looked at. -/
structure Request where
  authorization : String := ""
  traceparent : String := ""
  idempotencyKey : String := ""

def authorized (srv : Server) (r : Request) : Bool :=
  srv.lib.sha256 (utf8 r.authorization.toList) ==
    srv.lib.sha256 (utf8 ("Bearer " ++ srv.lib.getenv srv.c.localTokenEnv).toList)

/-- Why the gateway cannot serve, or the empty text. -/
def notReady (srv : Server) : M String := do
  if ← ask .draining then pure "draining"
  else
    match ← currentPolicy with
    | some p =>
      if p.routes.any (fun r => (srv.c.providers.lookup r.provider).isSome) then pure ""
      else pure ("policy v" ++ Strings.itoa p.version ++
        " names no provider this gateway has configured")
    | none =>
      if ← ask .policyExpired then
        pure "the cached policy expired and no newer one has been accepted"
      else
        let reason ← syncState
        if reason ≠ "" then pure ("no policy yet: " ++ reason)
        else if srv.c.controlURL = "" then
          pure "no policy: none cached, and no control plane is configured to fetch one"
        else pure "no policy yet: waiting for the first control-plane sync to succeed"

def hexValue (c : Char) : Option Nat :=
  if '0'.toNat ≤ c.toNat ∧ c.toNat ≤ '9'.toNat then some (c.toNat - '0'.toNat)
  else if 'a'.toNat ≤ c.toNat ∧ c.toNat ≤ 'f'.toNat then some (c.toNat - 'a'.toNat + 10)
  else if 'A'.toNat ≤ c.toNat ∧ c.toNat ≤ 'F'.toNat then some (c.toNat - 'A'.toNat + 10)
  else none

def isHex (cs : List Char) : Bool := cs.all (fun c => (hexValue c).isSome)

/-- Hexadecimal digits that are not all zero. -/
def nonzeroHex (cs : List Char) : Bool := isHex cs && cs.any (fun c => c != '0')

def traceIDs (h : String) : M (String × String) :=
  match Strings.split '-' h.toList with
  | [v, t, s, f] =>
    if v = ['0', '0'] ∧ t.length = 32 ∧ s.length = 16 ∧ f.length = 2 ∧ nonzeroHex t ∧
      nonzeroHex s ∧ isHex f then
      pure (String.ofList (Strings.toLower t), String.ofList (Strings.toLower s))
    else do
      let t ← randomID 16
      pure (t, "")
  | _ => do
    let t ← randomID 16
    pure (t, "")

/-- How the handling of a request ended. `settled` is whether the outcome of its
idempotency key has been recorded. -/
structure Ended where
  event : Event
  settled : Bool := false
  prompt : Option Bytes := none
  completion : Option Json := none
  text : String := ""

def fail (event : Event) (settled : Bool) (status : Int) (msg : String) : M Ended := do
  problem status msg
  pure { event := { event with status := status }, settled := settled }

structure EmptyRoute where
  provider : String
  model : String
  budget : Int
  reasoning : Int
deriving DecidableEq, Repr

def EmptyRoute.string (e : EmptyRoute) : String :=
  if 0 < e.reasoning then
    e.provider ++ "/" ++ e.model ++ " spent all " ++ Strings.itoa e.reasoning ++
      " tokens on internal reasoning and returned none"
  else e.provider ++ "/" ++ e.model ++ " returned no output"

/-- What the routing loop carries from one route to the next. -/
structure Loop where
  event : Event
  empties : List EmptyRoute := []

/-- How the loop goes on after one turn. What a route that is repeated comes to depends on who
repeats it. -/
inductive FlowOf (α : Type) where
  | next (st : Loop)
  | stop (st : Loop)
  | done (e : Ended)
  | again (a : α)

abbrev Flow : Type := FlowOf Empty

def streams (_ : String) : Bool := true

def routable (srv : Server) (route : Route) (stream : Bool) : M Bool :=
  match srv.c.providers.lookup route.provider with
  | none => pure false
  | some _ => if stream && !streams route.provider then pure false
    else wouldAllow route.provider

def budgetKey (route : Route) : BudgetKey := ⟨route.provider, route.model⟩

/-- Which routes to pass over, and how many could be attempted. -/
def prepass (k : Inference) : List Route → M (List Bool × Nat)
  | [] => pure ([], 0)
  | route :: routes => do
    if ← routable k.srv route k.chat.stream then
      let skip ← ask (.budgetSkip (budgetKey route) k.chat.maxTokens)
      let skip ← if skip then pure true else ask (.fleetUnhealthy route.provider)
      let (skips, eligible) ← prepass k routes
      pure (skip :: skips, eligible + 1)
    else
      let (skips, eligible) ← prepass k routes
      pure (false :: skips, eligible)

/-- When every route that could be attempted would be passed over, none is. -/
def skipped (skips : List Bool) (eligible : Nat) : List Bool :=
  if skips.count true = eligible then skips.map (fun _ => false) else skips

/-- A request for the provider, signed if it is Bedrock's. -/
def upstream (srv : Server) (c : Chat) (route : Route) (pc : ProviderConfig) :
    M (Option Upstream) :=
  match unsigned srv.lib c route pc with
  | none => pure none
  | some u =>
    if route.provider = "bedrock" then
      if srv.bedrock then do
        match ← sign u with
        | none => pure none
        | some hs => pure (some { u with headers := u.headers ++ hs })
      else pure none
    else pure (some u)

def withRequestID (id : String) (u : Upstream) : Upstream :=
  { u with headers := u.headers ++ [("X-Request-ID", id)] }

/-- Marks a key ambiguous; whether there was one to mark. -/
def settleUnknown (k : Inference) : M Bool :=
  if k.key = "" then pure false
  else do
    let t ← now
    finishKey k.key { state := .unknown, stored := unix t,
                      bodyHash := IdemStore.hashBody k.srv.lib.sha256 k.body }
    pure true

/-- Records the answer of a key; whether there was one to record it for. -/
def settleDone (k : Inference) (e : IdemEntry) : M Bool :=
  if k.key = "" then pure false
  else do
    let t ← now
    finishKey k.key { e with state := .done, stored := unix t, status := 200,
                             bodyHash := IdemStore.hashBody k.srv.lib.sha256 k.body }
    pure true

def observeBudget (k : Inference) (route : Route) (finish text : String) : M Unit :=
  match BudgetTable.outcome finish text with
  | none => pure ()
  | some produced => tell (.budgetObserve (budgetKey route) k.chat.maxTokens produced)

section
variable {α : Type}

/-- A provider that answered and said nothing: the next route may do better. -/
def emptyAnswer (k : Inference) (route : Route) (st : Loop) (reasoning : Int) : M (FlowOf α) := do
  tell (.budgetObserve (budgetKey route) k.chat.maxTokens false)
  tell (.count .emptyCompletion 1)
  pure (.next { st with empties := st.empties ++
    [⟨route.provider, route.model, k.chat.maxTokens, reasoning⟩] })

def acceptStream (k : Inference) (route : Route) (st : Loop) (contentType : String) (body : Body) :
    M (FlowOf α) := do
  let (out, stop) ← stream k route contentType body
  match stop with
  | .empty =>
    settle route.provider (.result false)
    emptyAnswer k route st 0
  | .failed _ =>
    settle route.provider (.result true)
    let settled ← settleUnknown k
    let event := { st.event with status := 200, usage := out.usage, streamFailed := true }
    pure (.done { event := event, settled := settled })
  | .complete =>
    settle route.provider (.result false)
    observeBudget k route out.finish out.text
    tellIf (!st.empties.isEmpty) (.count .emptyCompletionRecovered 1)
    let settled ← settleDone k { stream := true, text := out.text, finish := out.finish }
    pure (.done { event := { st.event with status := 200, usage := out.usage },
                  settled := settled, text := out.text })

/-- The whole body of a response, unless it breaks off or is too long. -/
def wholeBody (body : Body) : Option Bytes :=
  if body.broken ∨ responseLimit < body.bytes.length then none else some body.bytes

def answer (k : Inference) (route : Route) (st : Loop) (n : Normalized) : M (FlowOf α) := do
  observeBudget k route n.finish n.text
  tellIf (!st.empties.isEmpty) (.count .emptyCompletionRecovered 1)
  let body := completion k.id route n (unix k.start)
  let settled ← settleDone k { response := some body }
  setHeader "Content-Type" "application/json"
  let _ ← write (GoJson.marshal body)
  pure (.done { event := { st.event with status := 200 }, settled := settled,
                completion := some body })

def acceptWhole (k : Inference) (route : Route) (st : Loop) (body : Body) : M (FlowOf α) :=
  match wholeBody body with
  | none => do
    settle route.provider (.result true)
    let settled ← settleUnknown k
    .done <$> fail st.event settled 502 "incomplete provider response; not replayed"
  | some data => do
    let r := normalize route.provider data false
    tellIf r.n.usageMismatch (.count .usageMismatch 1)
    let st := { st with event := { st.event with usage := usageOf r.n } }
    settle route.provider (.result r.err.isSome)
    if r.err.isSome then
      let settled ← settleUnknown k
      .done <$> fail st.event settled 502 "unsupported or incomplete provider response; not replayed"
    else if r.n.finish = "length" ∧ r.n.text = "" then emptyAnswer k route st r.n.reasoning
    else answer k route st r.n

def accepted (k : Inference) (route : Route) (st : Loop) (contentType : String) (body : Body) :
    M (FlowOf α) := do
  tell (.markHealthy route.provider)
  setHeader "X-Switchboard-Provider" route.provider
  setHeader "X-Switchboard-Attempts" (Strings.itoa st.event.attempts)
  if k.chat.stream then acceptStream k route st contentType body
  else acceptWhole k route st body

/-- Repeats a route that asked to be left alone for a short time, or leaves it alone.
`again` is there as long as the route has not been repeated. -/
def rateLimited (k : Inference) (route : Route) (again : Option (Loop → M (FlowOf α))) (st : Loop)
    (delay : Int) : M (FlowOf α) := do
  tell (.count .rateLimited 1)
  let limit := wrap64 (k.srv.c.rateLimitRetryMaxMs * millisecond)
  match again with
  | some again =>
    if 0 < limit ∧ 0 < delay ∧ delay ≤ limit ∧ st.event.attempts < k.srv.c.maxAttempts then
      settle route.provider .release
      tell (.count .rateLimitRetry 1)
      if ← ask (.wait delay) then again st
      else .done <$> fail st.event false 504 "deadline exceeded while waiting out a rate limit"
    else leaveAlone
  | none => leaveAlone
where
  leaveAlone : M (FlowOf α) := do
    if 0 < delay then settle route.provider (.cooldown delay)
    else settle route.provider .release
    pure (.next st)

def callersFault (status : Int) : Bool := status == 400 || status == 422

/-- A refusal no other provider would answer differently, or that is not known to be
one: it goes to the client. -/
def terminal (route : Route) (st : Loop) (status : Int) (errBody : Bytes) : M (FlowOf α) := do
  if callersFault status then settle route.provider .release
  else settle route.provider (.result true)
  let reason := providerReason errBody
  let msg := "provider rejected request" ++ (if reason = "" then "" else ": " ++ reason)
  if callersFault status then .done <$> fail st.event false 400 msg
  else .done <$> fail st.event false 502 (msg ++ "; not replayed")

def refused (k : Inference) (route : Route) (again : Option (Loop → M (FlowOf α))) (st : Loop)
    (status : Int) (retryAfterHeader : String) (body : Body) : M (FlowOf α) := do
  let errBody := body.bytes.take 65536
  let t ← now
  let delay := retryAfter k.srv.lib.parseTime t retryAfterHeader
  let f := classify status errBody
  let st := { st with event := { st.event with fault := f.string } }
  match f with
  | .account =>
    tell (.share route.provider .account)
    settle route.provider (.cooldown (max delay accountCooldown))
    tell (.count .accountFailover 1)
    pure (.next st)
  | .rateLimit => rateLimited k route again st delay
  | .degraded =>
    tell (.share route.provider .degraded)
    settle route.provider (.result true)
    if 0 < delay then settle route.provider (.cooldown delay)
    pure (.next st)
  | .refused =>
    settle route.provider (.cooldown (max delay accountCooldown))
    tell (.count .refusedFailover 1)
    pure (.next st)
  | .terminal => terminal route st status errBody

def adapterFailed (route : Route) (st : Loop) : M (FlowOf α) := do
  settle route.provider .release
  .done <$> fail st.event false 500 "adapter configuration"

def conclude (k : Inference) (route : Route) (again : Option (Loop → M (FlowOf α))) (st : Loop) :
    Outcome → M (FlowOf α)
  | .failed => do
    if ← ask .clientGone then settle route.provider .release
    else settle route.provider (.result true)
    let settled ← settleUnknown k
    .done <$> fail st.event settled 502
      "provider transport failed; outcome unknown, no automatic replay"
  | .response status retryAfterHeader contentType body =>
    if status ≠ 200 then refused k route again st status retryAfterHeader body
    else accepted k route st contentType body

/-- What the provider said about the temperature that was sent to it, if anything. -/
def refusesTemperature (sent : Chat) : Outcome → Bool
  | .failed => false
  | .response status _ _ body =>
    decide (400 ≤ status) && sent.temperature.isSome &&
      rejectsTemperature status (body.bytes.take 65536)

/-- The request, and a second one without its temperature if that is what the provider
refused it for. -/
def exchange (k : Inference) (route : Route) (pc : ProviderConfig)
    (again : Option (Loop → M (FlowOf α))) (st : Loop) (sent : Chat) : M (FlowOf α) := do
  match ← upstream k.srv sent route pc with
  | none => adapterFailed route st
  | some u =>
    let res ← send (withRequestID k.id u)
    if refusesTemperature sent res then
      tell (.temperatureObserve (budgetKey route))
      tell (.count .temperatureDropped 1)
      match ← upstream k.srv { sent with temperature := none } route pc with
      | none => adapterFailed route st
      | some u =>
        let res ← send (withRequestID k.id u)
        conclude k route again st res
    else conclude k route again st res

/-- A model that is known to refuse a temperature is not sent one. -/
def dropTemperature (k : Inference) (route : Route) : M Chat :=
  if k.chat.temperature.isSome then do
    if ← ask (.temperatureOmitted (budgetKey route)) then
      tell (.count .temperatureDropped 1)
      pure { k.chat with temperature := none }
    else pure k.chat
  else pure k.chat

def markCached (route : Route) (sent : Chat) : M Chat :=
  if route.provider = "anthropic" then do
    if ← ask (.worthCaching (systemOf sent)) then
      tell (.count .promptCacheMarked 1)
      setHeader "X-Switchboard-Prompt-Cache" "system"
      pure { sent with cacheSystem := true }
    else pure sent
  else pure sent

/-- The chat as this route's provider is to get it. -/
def prepare (k : Inference) (route : Route) : M Chat := do
  let sent ← dropTemperature k route
  markCached route sent

/-- Whether the attempt may go on; otherwise how the loop does. Only an attempt after the
first needs a token of the retry budget and waits a moment. -/
def pace (route : Route) (st : Loop) : M (Option (FlowOf α)) := do
  if st.event.attempts ≤ 0 then pure none
  else if ← ask .retryAllow then
    tell (.count .retries 1)
    let t ← now
    if ← ask (.wait ((25 + t % 75) * millisecond)) then pure none
    else
      settle route.provider .release
      (some ∘ .done) <$> fail st.event false 504
        "deadline exceeded; generation outcome may be unknown"
  else
    settle route.provider .release
    pure (some (.stop st))

/-- The attempt is counted, and the event names the route from here on. -/
def Loop.attempting (st : Loop) (route : Route) : Loop :=
  { st with event := { st.event with attempts := st.event.attempts + 1,
                                     provider := route.provider, model := route.model } }

def attempt (k : Inference) (route : Route) (pc : ProviderConfig)
    (again : Option (Loop → M (FlowOf α))) (st : Loop) : M (FlowOf α) := do
  if k.srv.c.maxAttempts ≤ st.event.attempts then pure (.stop st)
  else if k.chat.stream && !streams route.provider then pure (.next st)
  else if ← allow route.provider then
    match ← pace route st with
    | some flow => pure flow
    | none =>
      let st := st.attempting route
      let sent ← prepare k route
      exchange k route pc again st sent
  else pure (.next st)

/-- One turn of the loop, given what a route does that is to be tried again. -/
def turn (k : Inference) (route : Route) (skip : Bool)
    (again : ProviderConfig → Option (Loop → M (FlowOf α))) (st : Loop) : M (FlowOf α) :=
  match k.srv.c.providers.lookup route.provider with
  | none => pure (.next st)
  | some pc =>
    if skip then do
      tell (.count .budgetSkip 1)
      pure (.next { st with event := { st.event with
        budgetSkipped := st.event.budgetSkipped ++ [route.provider ++ ":" ++ route.model] } })
    else attempt k route pc (again pc) st

end

/-- All turns of one route. A route that is repeated is not repeated a second time. -/
def visit (k : Inference) (route : Route) (skip : Bool) (st : Loop) : M Flow :=
  turn k route skip (fun pc => some (attempt k route pc none)) st

def exhausted (k : Inference) (st : Loop) : M Ended := do
  setHeader "Retry-After" "1"
  if st.empties ≠ [] then
    tell (.count .emptyCompletionFailed 1)
    fail st.event false 503 ("no provider produced output within max_tokens=" ++
      Strings.itoa k.chat.maxTokens ++ ": " ++ "; ".intercalate (st.empties.map EmptyRoute.string) ++
      "; retry with a higher max_tokens")
  else fail st.event false 503 "routes unavailable or retry budget exhausted"

def routeLoop (k : Inference) : List (Route × Bool) → Loop → M Ended
  | [], st => exhausted k st
  | (route, skip) :: rest, st => do
    match ← visit k route skip st with
    | .next st => routeLoop k rest st
    | .stop st => exhausted k st
    | .done e => pure e

/-- The same loop as the source has it: `i` is the index, and the indices that the loop has gone
back to are kept. The first argument bounds the number of turns, which the source does not. -/
def forRoutes (k : Inference) (routes : List (Route × Bool)) :
    Nat → Nat → List Nat → Loop → M (Option Ended)
  | 0, _, _, _ => pure none
  | turns + 1, i, retriedRoute, st =>
    match routes[i]? with
    | none => some <$> exhausted k st
    | some (route, skip) => do
      let again := if retriedRoute.contains i then none else some (fun st => pure (.again st))
      match ← turn k route skip (fun _ => again) st with
      | .next st => forRoutes k routes turns (i + 1) retriedRoute st
      | .stop st => some <$> exhausted k st
      | .done e => pure (some e)
      | .again st => forRoutes k routes turns i (i :: retriedRoute) st

def dispatch (k : Inference) (event : Event) : M Ended := do
  match ← currentPolicy with
  | none => fail event false 503 "policy expired"
  | some p =>
    let event := { event with policyVersion := p.version }
    let (skips, eligible) ← prepass k p.routes
    routeLoop k (p.routes.zip (skipped skips eligible)) { event := event }

def replay (id : String) (start : Int) (e : IdemEntry) (event : Event) : M Ended := do
  let event := { event with status := e.status, replayed := true }
  setHeader "X-Switchboard-Replayed" "true"
  if !e.stream then
    setHeader "Content-Type" "application/json"
    writeHeader e.status
    let _ ← write (match e.response with
      | some j => GoJson.marshal j
      | none => [])
    pure { event := event }
  else
    setHeader "Content-Type" "text/event-stream"
    setHeader "Cache-Control" "no-cache"
    setHeader "X-Accel-Buffering" "no"
    let _ ← write (sseFrame (chunk id {} { text := e.text, finish := e.finish } (unix start)))
    let _ ← write (ascii "data: [DONE]\n\n")
    pure { event := event }

/-- A parsed request with a key is dispatched only once the key is claimed, or when the
claim could not be stored. The key is given back unless its outcome was recorded. -/
def claim (k : Inference) (event : Event) : M Ended := do
  if k.key = "" then dispatch k event
  else
    match ← beginKey k.key k.body with
    | .error .mismatch =>
      fail event false 422 "this Idempotency-Key was already used with a different request body"
    | .error .conflict =>
      fail event false 409 ("this Idempotency-Key is in use, or its original outcome is unknown " ++
        "and replaying it could charge a second time")
    | .ok (some prior) => replay k.id k.start prior event
    | _ => do
      let e ← dispatch k event
      if !e.settled then releaseKey k.key
      pure e

def receive (srv : Server) (r : Request) (id : String) (start : Int) (event : Event) : M Ended := do
  match ← readBody with
  | none => fail event false 413 "request body too large or unreadable"
  | some b =>
    match parseChat srv.lib b with
    | .error e => do
      let ended ← fail event false 400 (e.text srv.lib b)
      pure { ended with prompt := some b }
    | .ok c => do
      let ended ← claim ⟨srv, r.idempotencyKey, id, start, b, c⟩ event
      pure { ended with prompt := some b }

def reject429 (event : Event) (msg : String) : M Ended := do
  tell (.count .rejected 1)
  setHeader "Retry-After" "1"
  fail event false 429 msg

def serve (srv : Server) (r : Request) (id : String) (start : Int) (event : Event) : M Ended := do
  if !authorized srv r then fail event false 401 "unauthorized"
  else if (← notReady srv) ≠ "" then fail event false 503 "no valid routing policy or draining"
  else if r.idempotencyKey ≠ "" ∧ srv.idem = false then
    fail event false 400 ("idempotency keys are unsupported; set idempotency_ttl_seconds to " ++
      "enable them, and do not automatically replay ambiguous inference failures")
  else if !(← ask .rateAllow) then reject429 event "rate limit"
  else if !(← ask .acquireSlot) then reject429 event "concurrency limit"
  else
    tell (.count .active 1)
    let ended ← receive srv r id start event
    tell (.count .active (-1))
    tell .releaseSlot
    pure ended

def measure (start : Int) (event : Event) : M Unit :=
  if 0 < event.attempts then do
    let t ← now
    tell (.observeRoute event.provider event.model event.status ((t - start) / millisecond)
      event.usage)
  else pure ()

def record (srv : Server) (ended : Ended) (event : Event) : M Unit :=
  if srv.capture then do
    let t ← now
    tell (.capture { requestID := event.requestID, traceID := event.traceID,
                     policyVersion := event.policyVersion, provider := event.provider,
                     model := event.model, attempts := event.attempts, status := event.status,
                     fault := event.fault, stored := unix t, prompt := ended.prompt,
                     completion := ended.completion, text := ended.text })
  else pure ()

/-- The request is over: it is measured, told to telemetry and captured. -/
def epilogue (srv : Server) (start : Int) (ended : Ended) : M Event := do
  let t ← now
  let event := { ended.event with finish := t }
  measure start event
  tellIf (decide (400 ≤ event.status) || event.streamFailed) (.count .errors 1)
  tellIf srv.telemetry (.emit event)
  record srv ended event
  pure event

/-- The handler of a request. Its result is the event, as it was emitted. -/
def chat (srv : Server) (r : Request) : M Event := do
  let start ← now
  let id ← randomID 16
  let (trace, parent) ← traceIDs r.traceparent
  let eventID ← randomID 16
  let span ← randomID 8
  let event : Event := { id := eventID, requestID := id, traceID := trace, spanID := span,
                         parentID := parent, start := start, status := 500 }
  setHeader "X-Request-ID" id
  setHeader "traceparent" ("00-" ++ trace ++ "-" ++ span ++ "-01")
  tell (.count .requests 1)
  let ended ← serve srv r id start event
  epilogue srv start ended

end Switchboard.Gateway
