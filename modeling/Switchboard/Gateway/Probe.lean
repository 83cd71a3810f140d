import Switchboard.Gateway.Chat

namespace Switchboard.Gateway
open Text

def pingChat : Chat := { maxTokens := 8, messages := [{ role := "user", content := "ping" }] }

def withReason (what : String) (body : Bytes) : String :=
  if providerReason body = "" then what else what ++ ": " ++ providerReason body

/-- The empty text when the provider is usable. The texts of the errors met on the way
are left out. -/
def probeOne (srv : Server) (route : Route) (pc : ProviderConfig) : M String := do
  match ← upstream srv pingChat route pc with
  | none => pure "request could not be built"
  | some u =>
    match ← send u with
    | .failed => pure "provider unreachable"
    | .response status _ _ body =>
      let body := body.bytes.take 65536
      if status = 200 then pure ""
      else if status = 401 ∨ status = 403 then pure (withReason "credentials rejected" body)
      else if classify status body = .account then pure (withReason "account cannot serve" body)
      else pure ""

def probeRoutes (srv : Server) (seen : List String) : List Route → M Unit
  | [] => pure ()
  | route :: routes => do
    if route.provider ∈ seen then probeRoutes srv seen routes
    else
      match srv.c.providers.lookup route.provider with
      | none => probeRoutes srv (route.provider :: seen) routes
      | some pc =>
        if (← probeOne srv route pc) ≠ "" then
          tell (.count .providerProbeFailed 1)
          tell (.markUnhealthy route.provider)
          settle route.provider (.cooldown accountCooldown)
        probeRoutes srv (route.provider :: seen) routes

/-- The check of every provider the first policy routes to, at startup. -/
def probeProviders (srv : Server) : M Unit := do
  match ← awaitPolicy with
  | none => pure ()
  | some p => probeRoutes srv [] p.routes

end Switchboard.Gateway
