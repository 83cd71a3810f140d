import Switchboard.Gateway.Tables

namespace Switchboard.Gateway
open Text

/-- A parsed URL, as far as it is looked at. -/
structure URL where
  scheme : String
  host : String
  hostname : String
  user : Bool
  rawQuery : String
  fragment : String

/-- One message of an AWS event stream: its `:event-type` header and its payload. -/
structure StreamMessage where
  kind : String
  payload : Bytes

/-- The body of a response: the bytes that arrive, and whether they end with an error
rather than with the end of the body. -/
structure Body where
  bytes : Bytes
  broken : Bool := false
deriving DecidableEq, Repr

/-- The standard library and the system, where the program depends on them and this
model does not go into them. Floating-point numbers are kept by their 64 bits.
`eventStream` also says whether the stream ended where a message ends. -/
structure Lib where
  getenv : String → String
  freeBytes : String → Option Int
  splitHostPort : String → Option (String × String)
  isLoopback : String → Bool
  parseURL : String → Option URL
  quote : String → String
  parseTime : String → Option Int
  jsonError : Bytes → String
  parseFloat : List Char → Option UInt64
  formatFloat : UInt64 → List Char
  sha256 : Bytes → Bytes
  eventStream : Int → Body → List StreamMessage × Bool

structure ProviderConfig where
  url : String := ""
  keyEnv : String := ""
  region : String := ""
deriving DecidableEq, Repr

structure MarketplaceConfig where
  productCode : String := ""
  publicKeyVersion : Int := 0
deriving DecidableEq, Repr

structure Config where
  listen : String := ""
  tenant : String := ""
  dataDir : String := ""
  controlURL : String := ""
  controlTokenEnv : String := ""
  localTokenEnv : String := ""
  trustedKeys : Map String String := ∅
  providers : Map String ProviderConfig := ∅
  concurrency : Int := 0
  rate : Int := 0
  burst : Int := 0
  retryRate : Int := 0
  maxAttempts : Int := 0
  timeoutSeconds : Int := 0
  queueSize : Int := 0
  spoolBytes : Int := 0
  otlpURL : String := ""
  otlpMetricsURL : String := ""
  otlpHeaders : Map String String := ∅
  marketplace : Option MarketplaceConfig := none
  allowLocalHTTP : Bool := false
  idempotencyTTLSeconds : Int := 0
  idempotencyBytes : Int := 0
  promptCaching : Bool := false
  rateLimitRetryMaxMs : Int := 0
  fleetHealth : Bool := false
  captureTTLSeconds : Int := 0
  captureBytes : Int := 0

structure Limit where
  name : String
  v : Int
  min : Int
  max : Int
deriving DecidableEq, Repr

inductive ConfigError where
  | listen
  | tenant
  | dataDir
  | limit (l : Limit)
  | idempotencyTTL (v : Int)
  | captureTTL (v : Int)
  | captureBytes (v : Int)
  | overcommitted (total free : Int) (dataDir : String)
  | idempotencyBytes (v : Int)
  | controlURL
  | controlToken (env : String)
  | strayControlToken
  | otlpURL
  | otlpMetricsURL
  | headerName (name : String)
  | headerReserved (name : String)
  | headerUnnamed (name : String)
  | headerEmpty (name env : String)
  | localToken (env : String)
  | emptyTrustStore
  | keyName (key : String)
  | keyEncoding (key : String)
  | keyLength (key : String) (length : Nat)
  | unknownProvider (name : String)
  | providerURL (name : String)
  | region
  | keyEnv (name : String)
  | keyEmpty (name env : String)
  | noProviders
  | productCode
  | publicKeyVersion
deriving DecidableEq, Repr

def ConfigError.text (lib : Lib) : ConfigError → String
  | .listen => "listen must be a loopback IP:port; use one sidecar per tenant"
  | .tenant => "tenant must be a short identifier of letters, digits, dashes or underscores"
  | .dataDir => "data_dir is required; it holds the policy cache and the telemetry spool"
  | .limit l => l.name ++ " is " ++ Strings.itoa l.v ++ "; it must be between " ++
      Strings.itoa l.min ++ " and " ++ Strings.itoa l.max
  | .idempotencyTTL v => "idempotency_ttl_seconds is " ++ Strings.itoa v ++
      "; it must be between 0 (disabled) and 86400"
  | .captureTTL v => "capture_ttl_seconds is " ++ Strings.itoa v ++
      "; must be 0 (off) to 604800 (seven days)"
  | .captureBytes v => "capture_bytes is " ++ Strings.itoa v ++
      "; must be 1048576 to 107374182400 when capture is enabled"
  | .overcommitted total free dir => "spool_bytes + idempotency_bytes + capture_bytes is " ++
      Strings.itoa total ++ ", more than the " ++ Strings.itoa free ++
      " bytes available on data_dir " ++ lib.quote dir ++
      "; the volume fills before any store reaches its own limit"
  | .idempotencyBytes v => "idempotency_bytes is " ++ Strings.itoa v ++
      "; with idempotency enabled it must be between 1048576 and 10737418240"
  | .controlURL => "control_url must be https, or http on loopback with allow_local_http"
  | .controlToken env => "control_url is set, so " ++ env ++ " must hold at least 32 bytes"
  | .strayControlToken =>
      "control_token_env is set but control_url is empty; remove one or the other"
  | .otlpURL => "otlp_url must be https, or http on loopback with allow_local_http"
  | .otlpMetricsURL => "otlp_metrics_url must be https, or http on loopback with allow_local_http"
  | .headerName name => "otlp_headers: " ++ lib.quote name ++ " is not a valid header name"
  | .headerReserved name => "otlp_headers: " ++ lib.quote name ++
      " is set by the exporter and cannot be overridden"
  | .headerUnnamed name => "otlp_headers[" ++ lib.quote name ++
      "] must name an environment variable, not hold a value"
  | .headerEmpty name env => "otlp_headers[" ++ lib.quote name ++ "] names " ++ env ++
      ", which is empty"
  | .localToken env => env ++
      " must hold at least 32 bytes; it is the token your application presents"
  | .emptyTrustStore => "empty trust store"
  | .keyName key => "trust key id " ++ lib.quote key ++
      " must be letters, digits, dashes or underscores"
  | .keyEncoding key => "trust key " ++ lib.quote key ++
      " is not valid base64; derive it with 'gateway -public-key'"
  | .keyLength key n => "trust key " ++ lib.quote key ++ " decodes to " ++ Strings.itoa n ++
      " bytes; an ed25519 public key is 32"
  | .unknownProvider name => "unknown provider " ++ lib.quote name ++
      "; supported: openai, anthropic, gemini, bedrock"
  | .providerURL name => "provider " ++ lib.quote name ++
      ": url must be https, or http on loopback with allow_local_http"
  | .region => "provider \"bedrock\": region is required; SigV4 binds a signature to one"
  | .keyEnv name => "provider " ++ lib.quote name ++ ": key_env is required"
  | .keyEmpty name env => "provider " ++ lib.quote name ++ ": " ++ env ++
      " is empty; every configured provider needs its key, even one the policy never routes to"
  | .noProviders => "no providers configured"
  | .productCode => "marketplace product_code is not a valid product code"
  | .publicKeyVersion => "marketplace public_key_version must be at least 1"

/-- A check that fails when `bad` holds. -/
def reject (bad : Bool) (e : ConfigError) : Except ConfigError Unit :=
  if bad then .error e else .ok ()

def headerChar (c : Char) : Bool :=
  alphanumeric c || "!#$%&'*+-.^_`|~".toList.contains c

def headerName (s : String) : Bool := !s.toList.isEmpty && s.toList.all headerChar

def productCodeChar (c : Char) : Bool := alphanumeric c || "-/=:_.@".toList.contains c

def productCodePattern (s : String) : Bool :=
  !s.toList.isEmpty && decide (s.toList.length ≤ 255) && s.toList.all productCodeChar

def MarketplaceConfig.validate (m : MarketplaceConfig) : Except ConfigError Unit := do
  reject (!productCodePattern m.productCode) .productCode
  reject (decide (m.publicKeyVersion < 1)) .publicKeyVersion

section
variable (lib : Lib)

def secureURL (s : String) (isLocal : Bool) : Bool :=
  match lib.parseURL s with
  | none => false
  | some u =>
    if u.host = "" ∨ u.user ∨ u.rawQuery ≠ "" ∨ u.fragment ≠ "" then false
    else u.scheme == "https" ||
      (isLocal && u.scheme == "http" && (u.hostname == "localhost" || lib.isLoopback u.hostname))

def envLength (env : String) : Nat := (utf8 (lib.getenv env).toList).length

def Config.limits (c : Config) : List Limit :=
  [⟨"concurrency", c.concurrency, 1, 4096⟩,
   ⟨"rate", c.rate, 1, 100000⟩,
   ⟨"burst", c.burst, 1, 100000⟩,
   ⟨"retry_rate", c.retryRate, 1, 10000⟩,
   ⟨"max_attempts", c.maxAttempts, 1, 3⟩,
   ⟨"timeout_seconds", c.timeoutSeconds, 1, 90⟩,
   ⟨"queue_size", c.queueSize, 1, 65536⟩,
   ⟨"spool_bytes", c.spoolBytes, 1048576, 10737418240⟩]

def Limit.check (l : Limit) : Except ConfigError Unit :=
  reject (decide (l.v < l.min ∨ l.max < l.v)) (.limit l)

def checkHeader (name env : String) : Except ConfigError Unit := do
  reject (!headerName name) (.headerName name)
  reject (["content-type", "authorization", "host", "content-length"].contains
    (String.ofList (Strings.toLower name.toList))) (.headerReserved name)
  reject (env == "") (.headerUnnamed name)
  reject (lib.getenv env == "") (.headerEmpty name env)

def checkKey (key v : String) : Except ConfigError Unit := do
  reject (!identifier key) (.keyName key)
  match Base64.decode v.toList with
  | none => .error (.keyEncoding key)
  | some b => reject (b.length != 32) (.keyLength key b.length)

def checkProvider (allowLocalHTTP : Bool) (name : String) (p : ProviderConfig) :
    Except ConfigError Unit := do
  reject (!knownProvider name) (.unknownProvider name)
  reject (!secureURL lib p.url allowLocalHTTP) (.providerURL name)
  if name = "bedrock" then reject (!identifier p.region) .region
  else
    reject (p.keyEnv == "") (.keyEnv name)
    reject (lib.getenv p.keyEnv == "") (.keyEmpty name p.keyEnv)

def Config.checkStores (c : Config) : Except ConfigError Unit := do
  reject (decide (c.idempotencyTTLSeconds < 0 ∨ 86400 < c.idempotencyTTLSeconds))
    (.idempotencyTTL c.idempotencyTTLSeconds)
  reject (decide (c.captureTTLSeconds < 0 ∨ 604800 < c.captureTTLSeconds))
    (.captureTTL c.captureTTLSeconds)
  reject (decide (0 < c.captureTTLSeconds ∧
      (c.captureBytes < 1048576 ∨ 107374182400 < c.captureBytes)))
    (.captureBytes c.captureBytes)
  match lib.freeBytes c.dataDir with
  | none => .ok ()
  | some free =>
    let total := wrap64 (wrap64 (c.spoolBytes + c.idempotencyBytes) + c.captureBytes)
    reject (decide (0 < free ∧ free < total)) (.overcommitted total free c.dataDir)
  reject (decide (0 < c.idempotencyTTLSeconds ∧
      (c.idempotencyBytes < 1048576 ∨ 10737418240 < c.idempotencyBytes)))
    (.idempotencyBytes c.idempotencyBytes)

def Config.checkEndpoints (c : Config) : Except ConfigError Unit := do
  if c.controlURL ≠ "" then
    reject (!secureURL lib c.controlURL c.allowLocalHTTP) .controlURL
    reject (decide (envLength lib c.controlTokenEnv < 32)) (.controlToken c.controlTokenEnv)
  else reject (c.controlTokenEnv != "") .strayControlToken
  reject (c.otlpURL != "" && !secureURL lib c.otlpURL c.allowLocalHTTP) .otlpURL
  reject (c.otlpMetricsURL != "" && !secureURL lib c.otlpMetricsURL c.allowLocalHTTP)
    .otlpMetricsURL
  c.otlpHeaders.entries.forM (fun h => checkHeader lib h.1 h.2)
  reject (decide (envLength lib c.localTokenEnv < 32)) (.localToken c.localTokenEnv)

/-- Maps are gone through in the order of their entries, where the source's order is
not determined; only which of several errors is reported depends on it. -/
def Config.validate (c : Config) : Except ConfigError Unit := do
  match lib.splitHostPort c.listen with
  | none => .error .listen
  | some (host, _) => reject (!lib.isLoopback host) .listen
  reject (!identifier c.tenant) .tenant
  reject (c.dataDir == "") .dataDir
  c.limits.forM Limit.check
  c.checkStores lib
  c.checkEndpoints lib
  reject c.trustedKeys.entries.isEmpty .emptyTrustStore
  c.trustedKeys.entries.forM (fun k => checkKey k.1 k.2)
  c.providers.entries.forM (fun p => checkProvider lib c.allowLocalHTTP p.1 p.2)
  reject c.providers.entries.isEmpty .noProviders
  match c.marketplace with
  | none => .ok ()
  | some m => m.validate

end

end Switchboard.Gateway
