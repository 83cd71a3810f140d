import Switchboard.Effect.Pool
import Switchboard.Gateway.Telemetry

namespace Switchboard.Gateway
open Text
open Effect (Prog)

/-- One provider in the vocabulary of the conventions. -/
structure Semconv where
  provider : String
  operation : String
deriving DecidableEq, Repr

def semconvOf (provider : String) : Semconv :=
  if provider = "openai" then ⟨"openai", "chat"⟩
  else if provider = "anthropic" then ⟨"anthropic", "chat"⟩
  else if provider = "gemini" then ⟨"gcp.gemini", "generate_content"⟩
  else if provider = "bedrock" then ⟨"aws.bedrock", "chat"⟩
  else ⟨provider, "chat"⟩

/-- What a request is measured under. The error type is empty on success. -/
structure RouteKey where
  provider : String
  model : String
  errorType : String
deriving DecidableEq, Repr

def latencyBounds : List Int := [5, 25, 100, 500, 1000, 5000, 15000, 60000, 90000]

def tokenBounds : List Int := [1, 16, 64, 256, 1024, 4096, 16384, 65536, 262144]

/-- A distribution. Each bucket counts every value up to its bound. -/
structure Dist where
  buckets : List Int
  sum : Int := 0
  count : Int := 0
deriving DecidableEq, Repr

def newDist (bounds : List Int) : Dist := { buckets := bounds.map (fun _ => 0) }

def Dist.observe (bounds : List Int) (d : Dist) (n : Int) : Dist where
  buckets := List.zipWith (fun b c => if n ≤ b then c + 1 else c) bounds d.buckets
  sum := d.sum + n
  count := d.count + 1

/-- The measurements of one route. -/
structure RouteLatency where
  latency : Dist := newDist latencyBounds
  input : Dist := newDist tokenBounds
  output : Dist := newDist tokenBounds
deriving DecidableEq, Repr

/-- One completed request as it is told to `ObserveRoute`. -/
structure RouteObservation where
  provider : String
  model : String
  status : Int
  ms : Int
  usage : TokenUsage
deriving DecidableEq, Repr

def RouteObservation.key (c : RouteObservation) : RouteKey where
  provider := c.provider
  model := c.model
  errorType := if 400 ≤ c.status then Strings.itoa c.status else ""

/-- Tokens are measured only if the provider stated any. -/
def RouteLatency.observe (r : RouteLatency) (c : RouteObservation) : RouteLatency :=
  let r := { r with latency := r.latency.observe latencyBounds c.ms }
  if c.usage.input ≠ 0 ∨ c.usage.output ≠ 0 then
    { r with input := r.input.observe tokenBounds c.usage.input,
             output := r.output.observe tokenBounds c.usage.output }
  else r

def routeMaxKeys : Nat := 128

/-- The table of routes, and what of the metrics goes with it. A route's measurements are
kept where its pointer leads: in `heap`, at that index. The cap is a parameter, so that a table
without one is the same table. -/
structure RouteTable where
  m : Map RouteKey Nat := ∅
  heap : List RouteLatency := []
  folded : Int := 0
  completed : Int := 0
  latencyMS : Int := 0

namespace RouteTable

def create (t : RouteTable) (k : RouteKey) : Nat × RouteTable :=
  (t.heap.length, { t with m := t.m.insert k t.heap.length, heap := t.heap ++ [{}] })

/-- The part of `get` that holds the write lock. -/
def getLocked (maxKeys : Option Nat) (t : RouteTable) (k : RouteKey) : Nat × RouteTable :=
  match t.m.lookup k with
  | some r => (r, t)
  | none =>
    if maxKeys.any (fun n => decide (n ≤ t.m.size)) ∧ k.model ≠ "" then
      let t := { t with folded := t.folded + 1 }
      let k := { k with model := "" }
      match t.m.lookup k with
      | some r => (r, t)
      | none => t.create k
    else t.create k

/-- What `ObserveRoute` does with the measurements it got. -/
def record (t : RouteTable) (r : Nat) (c : RouteObservation) : RouteTable :=
  { t with heap := t.heap.modify r (·.observe c), completed := t.completed + 1,
           latencyMS := t.latencyMS + c.ms }

end RouteTable

/-- The atomic steps of `ObserveRoute`. -/
inductive RouteOp where
  | lookup (k : RouteKey)
  | getLocked (k : RouteKey)
  | record (r : Nat) (c : RouteObservation)

abbrev RouteAns : RouteOp → Type
  | .lookup _ => Option Nat
  | .getLocked _ => Nat
  | .record _ _ => Unit

/-- `routeTable.get`: a look with the read lock, and one more with the write lock. -/
def getRoute (k : RouteKey) : Prog RouteOp RouteAns Nat := do
  match ← (Prog.call (RouteOp.lookup k) : Prog RouteOp RouteAns (Option Nat)) with
  | some r => pure r
  | none => (Prog.call (RouteOp.getLocked k) : Prog RouteOp RouteAns Nat)

def observeRoute (c : RouteObservation) : Prog RouteOp RouteAns Unit := do
  let r ← getRoute c.key
  (Prog.call (RouteOp.record r c) : Prog RouteOp RouteAns Unit)

def RouteTable.perform (maxKeys : Option Nat) (t : RouteTable) :
    (o : RouteOp) → RouteAns o × RouteTable
  | .lookup k => (t.m.lookup k, t)
  | .getLocked k => t.getLocked maxKeys k
  | .record r c => ((), t.record r c)

/-- The requests that are measured side by side. -/
def routeDriver (maxKeys : Option Nat) :
    Effect.Driver RouteOp RouteAns RouteTable Unit Empty where
  perform t o _ := some (t.perform maxKeys o)
  change _ e := nomatch e

/-- One request that is measured alone. -/
def RouteTable.observed (maxKeys : Option Nat) (t : RouteTable) (c : RouteObservation) : RouteTable :=
  match (routeDriver maxKeys).exec (fun _ => ()) (observeRoute c) t with
  | some (_, t) => t
  | none => t

/-- The table after a sequence of requests, the last one first. -/
def observedAll (maxKeys : Option Nat) : List RouteObservation → RouteTable
  | [] => {}
  | c :: past => (observedAll maxKeys past).observed maxKeys c

/-- The routes and their measurements, as they are read for an export. -/
def RouteTable.snapshot (t : RouteTable) : List (RouteKey × RouteLatency) :=
  t.m.entries.map (fun e => (e.1, t.heap.getD e.2 {}))

/-- The label pairs of a route, `error_type` on request. -/
def RouteKey.labels (k : RouteKey) (withError : Bool) : List (String × String) :=
  [("gen_ai_operation_name", (semconvOf k.provider).operation),
    ("gen_ai_provider_name", (semconvOf k.provider).provider)] ++
  (if k.model ≠ "" then [("gen_ai_request_model", k.model)] else []) ++
  (if withError ∧ k.errorType ≠ "" then [("error_type", k.errorType)] else [])

def escapeLabel (c : Char) : List Char :=
  if c = '\\' then ['\\', '\\']
  else if c = '"' then ['\\', '"']
  else if c = '\n' then ['\\', 'n']
  else [c]

def joinLabels (pairs : List (String × String)) : String :=
  ",".intercalate (pairs.map (fun p =>
    p.1 ++ "=\"" ++ String.ofList (p.2.toList.flatMap escapeLabel) ++ "\""))

/-- Milliseconds as seconds, without trailing zeros. -/
def formatSeconds (ms : Int) : String :=
  let fraction := (Strings.itoa (1000 + ms.natAbs % 1000)).toList.drop 1
  let digits := (fraction.reverse.dropWhile (· == '0')).reverse
  (if ms < 0 then "-" else "") ++ Strings.itoa (ms.natAbs / 1000) ++
    (if digits = [] then "" else "." ++ String.ofList digits)

/-- One line of the exposition that states a value. -/
structure Sample where
  name : String
  labels : List (String × String)
  value : String
deriving DecidableEq, Repr

inductive Line where
  | kind (name : String)
  | sample (s : Sample)
deriving DecidableEq, Repr

def Line.text : Line → String
  | .kind name => "# TYPE " ++ name ++ " histogram\n"
  | .sample s => s.name ++ "\x7b" ++ joinLabels s.labels ++ "\x7d " ++ s.value ++ "\n"

/-- The lines of one distribution: its buckets up to infinity, its sum and its count. -/
def Dist.samples (d : Dist) (name : String) (labels : List (String × String)) (bounds : List String)
    (sum : String) : List Sample :=
  List.zipWith (fun b c => ⟨name ++ "_bucket", labels ++ [("le", b)], Strings.itoa c⟩) bounds
    d.buckets ++
  [⟨name ++ "_bucket", labels ++ [("le", "+Inf")], Strings.itoa d.count⟩,
    ⟨name ++ "_sum", labels, sum⟩, ⟨name ++ "_count", labels, Strings.itoa d.count⟩]

def durationName : String := "gen_ai_server_request_duration_seconds"

def durationSamples (k : RouteKey) (r : RouteLatency) : List Sample :=
  r.latency.samples durationName (k.labels true) (latencyBounds.map formatSeconds)
    (formatSeconds r.latency.sum)

def tokenName : String := "gen_ai_client_token_usage"

/-- The token distributions of a route with their types. -/
def RouteLatency.tokens (r : RouteLatency) : List (String × Dist) :=
  [("input", r.input), ("output", r.output)]

def tokenLines (k : RouteKey) (d : String × Dist) : List Sample :=
  d.2.samples tokenName (k.labels false ++ [("gen_ai_token_type", d.1)])
    (tokenBounds.map Strings.itoa) (Strings.itoa d.2.sum)

/-- A distribution of tokens is exported once it has counted something. -/
def tokenSamples (k : RouteKey) (r : RouteLatency) : List Sample :=
  (r.tokens.filter (fun d => d.2.count != 0)).flatMap (tokenLines k)

/-- The order of the routes in the exposition. -/
def RouteKey.before (a b : RouteKey) : Bool :=
  if a.provider ≠ b.provider then decide (a.provider < b.provider)
  else if a.model ≠ b.model then decide (a.model < b.model)
  else decide (a.errorType < b.errorType)

def writeHistograms (t : RouteTable) : List Line :=
  let routes := t.snapshot.mergeSort (fun a b => !b.1.before a.1)
  if routes = [] then []
  else
    let tokens := routes.flatMap (fun e => tokenSamples e.1 e.2)
    .kind durationName :: (routes.flatMap (fun e => durationSamples e.1 e.2)).map .sample ++
      (if tokens = [] then [] else .kind tokenName :: tokens.map .sample)

/-- The attributes of a route, `error.type` on request. -/
def RouteKey.attrs (k : RouteKey) (withError : Bool) : List (String × String) :=
  [("gen_ai.operation.name", (semconvOf k.provider).operation),
    ("gen_ai.provider.name", (semconvOf k.provider).provider)] ++
  (if k.model ≠ "" then [("gen_ai.request.model", k.model)] else []) ++
  (if withError ∧ k.errorType ≠ "" then [("error.type", k.errorType)] else [])

/-- How many values each bucket holds, from how many are at most at each bound. -/
def differencedFrom (prev : Int) (count : Int) : List Int → List Int
  | [] => [max (count - prev) 0]
  | c :: cs => max (c - prev) 0 :: differencedFrom c count cs

def differenced (cumulative : List Int) (count : Int) : List String :=
  (differencedFrom 0 count cumulative).map Strings.itoa

/-- A point of an OTLP histogram. The sum and the bounds are exact, where the source uses
floats. -/
structure DataPoint where
  start : String
  time : String
  count : String
  sum : ℚ
  bucketCounts : List String
  explicitBounds : List ℚ
  attributes : List (String × String)
deriving DecidableEq

structure OtlpHistogram where
  name : String
  unit : String
  dataPoints : List DataPoint
deriving DecidableEq

def durationPoint (start time : String) (k : RouteKey) (r : RouteLatency) : DataPoint where
  start := start
  time := time
  count := Strings.itoa r.latency.count
  sum := (r.latency.sum : ℚ) / 1000
  bucketCounts := differenced r.latency.buckets r.latency.count
  explicitBounds := latencyBounds.map (fun b => (b : ℚ) / 1000)
  attributes := k.attrs true

def tokenPoint (start time : String) (k : RouteKey) (d : String × Dist) : DataPoint where
  start := start
  time := time
  count := Strings.itoa d.2.count
  sum := d.2.sum
  bucketCounts := differenced d.2.buckets d.2.count
  explicitBounds := tokenBounds.map (fun b => (b : ℚ))
  attributes := k.attrs false ++ [("gen_ai.token.type", d.1)]

def tokenPoints (start time : String) (k : RouteKey) (r : RouteLatency) : List DataPoint :=
  (r.tokens.filter (fun d => d.2.count != 0)).map (tokenPoint start time k)

def routeHistograms (t : RouteTable) (time start : String) : List OtlpHistogram :=
  let routes := t.snapshot
  if routes = [] then []
  else
    let tokens := routes.flatMap (fun e => tokenPoints start time e.1 e.2)
    ⟨"gen_ai.server.request.duration", "s", routes.map (fun e => durationPoint start time e.1 e.2)⟩ ::
      (if tokens = [] then [] else [⟨"gen_ai.client.token.usage", "\x7btoken\x7d", tokens⟩])

/-- The value of a span's attribute. -/
inductive AttrValue where
  | string (s : String)
  | int (n : Int)
deriving DecidableEq, Repr

structure Span where
  traceId : String
  spanId : String
  parentSpanId : Option String
  name : String
  start : Int
  finish : Int
  attributes : List (String × AttrValue)
  failed : Bool
deriving DecidableEq, Repr

/-- The error type of a span: the status, unless a stream broke after its 200. -/
def Event.errorType (e : Event) : String :=
  if e.streamFailed ∧ e.status < 400 then "stream_error" else Strings.itoa e.status

def spanOf (e : Event) : Span :=
  let sc := semconvOf e.provider
  let failed := decide (400 ≤ e.status) || e.streamFailed
  { traceId := e.traceID, spanId := e.spanID,
    parentSpanId := if e.parentID ≠ "" then some e.parentID else none,
    name := if e.provider = "" then "switchboard.refused"
      else if e.model = "" then sc.operation
      else sc.operation ++ " " ++ e.model,
    start := e.start, finish := e.finish, failed := failed,
    attributes :=
      (if e.provider ≠ "" then [("gen_ai.provider.name", .string sc.provider),
        ("gen_ai.operation.name", .string sc.operation)] else []) ++
      [("http.response.status_code", .int e.status), ("switchboard.attempts", .int e.attempts)] ++
      (if 0 < e.policyVersion then [("switchboard.policy_version", .int e.policyVersion)] else []) ++
      (if e.model ≠ "" then [("gen_ai.request.model", .string e.model)] else []) ++
      (if e.fault ≠ "" then [("switchboard.fault", .string e.fault)] else []) ++
      e.usage.attrs.map (fun a => (a.1, .int a.2)) ++
      (if failed then [("error.type", .string e.errorType)] else []) }

end Switchboard.Gateway
