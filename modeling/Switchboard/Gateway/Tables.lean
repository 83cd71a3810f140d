import Switchboard.Gateway.Fault

namespace Switchboard.Gateway
open Text

/-- A Go map, by its entries. -/
abbrev Map (κ β : Type) : Type := AList (fun _ : κ => β)

def Map.size (m : Map κ β) : Nat := m.entries.length

def Map.filter (m : Map κ β) (p : κ → β → Bool) : Map κ β :=
  ⟨m.entries.filter (fun e => p e.1 e.2), m.nodupKeys.sublist List.filter_sublist⟩

/-- A token bucket. Its tokens are counted exactly, where the source uses floats. -/
structure Bucket where
  tokens : ℚ
  last : Int
  rate : ℚ
  burst : ℚ

def newBucket (now rate burst : Int) : Bucket := ⟨burst, now, rate, burst⟩

def Bucket.allow (b : Bucket) (now : Int) : Bool × Bucket :=
  let tokens := min b.burst (b.tokens + ((now - b.last : Int) : ℚ) / (second : ℚ) * b.rate)
  if tokens < 1 then (false, { b with tokens := tokens, last := now })
  else (true, { b with tokens := tokens - 1, last := now })

/-- One model at one provider. -/
structure BudgetKey where
  provider : String
  model : String
deriving DecidableEq, Repr

/-- The largest budget seen to give no text, and the smallest seen to give some,
or zero. -/
structure BudgetFact where
  emptyAt : Int := 0
  okAt : Int := 0
  seen : Int := 0
deriving DecidableEq, Repr

structure BudgetTable where
  facts : Map BudgetKey BudgetFact := ∅
  ttl : Int := 6 * 3600 * second
  limit : Nat := 256

def newBudgetTable : BudgetTable := {}

namespace BudgetTable

def skip (b : BudgetTable) (now : Int) (k : BudgetKey) (budget : Int) : Bool :=
  match b.facts.lookup k with
  | none => false
  | some f =>
    if b.ttl < now - f.seen then false
    else if f.emptyAt < budget then false
    else f.okAt == 0 || decide (budget < f.okAt)

/-- What a key is taken to have shown so far, and the table to write it back to. -/
def recalled (b : BudgetTable) (now : Int) (k : BudgetKey) : BudgetFact × BudgetTable :=
  let fresh : BudgetFact × BudgetTable :=
    ({}, if b.limit ≤ b.facts.size then { b with facts := ∅ } else b)
  match b.facts.lookup k with
  | none => fresh
  | some f => if b.ttl < now - f.seen then fresh else (f, b)

def noted (f : BudgetFact) (budget : Int) (producedText : Bool) : BudgetFact :=
  if producedText then
    if f.okAt = 0 ∨ budget < f.okAt then { f with okAt := budget } else f
  else if f.emptyAt < budget then { f with emptyAt := budget }
  else f

def observe (b : BudgetTable) (now : Int) (k : BudgetKey) (budget : Int) (producedText : Bool) :
    BudgetTable :=
  if budget ≤ 0 then b
  else
    let (f, b) := b.recalled now k
    { b with facts := b.facts.insert k { noted f budget producedText with seen := now } }

/-- What a complete response says about a budget: nothing, when it has no text and
was not cut short. -/
def outcome (finish text : String) : Option Bool :=
  if text ≠ "" then some true
  else if finish = "length" then some false
  else none

def observeOutcome (b : BudgetTable) (now : Int) (k : BudgetKey) (budget : Int)
    (finish text : String) : BudgetTable :=
  match outcome finish text with
  | some produced => b.observe now k budget produced
  | none => b

end BudgetTable

/-- The models that refused a temperature. -/
structure TemperatureTable where
  seen : Map BudgetKey Int := ∅
  ttl : Int := 6 * 3600 * second
  limit : Nat := 256

def newTemperatureTable : TemperatureTable := {}

namespace TemperatureTable

def omitted (t : TemperatureTable) (now : Int) (k : BudgetKey) : Bool × TemperatureTable :=
  match t.seen.lookup k with
  | none => (false, t)
  | some at_ =>
    if t.ttl < now - at_ then (false, { t with seen := t.seen.erase k }) else (true, t)

def observe (t : TemperatureTable) (now : Int) (k : BudgetKey) : TemperatureTable :=
  let t := if t.limit ≤ t.seen.size then { t with seen := ∅ } else t
  { t with seen := t.seen.insert k now }

end TemperatureTable

def promptCacheTTL : Int := 5 * 60 * second

def promptCacheMaxTracked : Nat := 4096

def promptCacheMinBytes : Nat := 6000

/-- The system prompts seen lately, by their digests. -/
structure PrefixCache where
  seen : Map Bytes Int := ∅
  ttl : Int := promptCacheTTL
  max : Nat := promptCacheMaxTracked

def newPrefixCache : PrefixCache := {}

/-- Whether the prompt was seen before within the lifetime of the provider's cache;
in any case it has been seen now. -/
def PrefixCache.worthCaching (sha256 : Bytes → Bytes) (p : PrefixCache) (now : Int)
    (system : String) : Bool × PrefixCache :=
  if (utf8 system.toList).length < promptCacheMinBytes then (false, p)
  else
    let key := sha256 (utf8 system.toList)
    let seen := if p.max ≤ p.seen.size then ∅ else p.seen
    let worth := match seen.lookup key with
      | some last => decide (now - last < p.ttl)
      | none => false
    (worth, { p with seen := seen.insert key now })

/-- What the rest of the fleet reports: when each hint stops to apply. -/
structure FleetHealth where
  seen : Map String Int := ∅

def newFleetHealth : FleetHealth := {}

def fleetHintMax : Int := 45 * second

namespace FleetHealth

def unhealthy (f : FleetHealth) (now : Int) (provider : String) : Bool :=
  match f.seen.lookup provider with
  | some t => decide (now < t)
  | none => false

/-- The reports replace the hints held so far. -/
def apply (now : Int) (reports : Map String Int) (max : Int) : FleetHealth :=
  ⟨reports.entries.foldr (fun e m => AList.insert e.1 (now + min e.2 max) m) ∅⟩

end FleetHealth

end Switchboard.Gateway
