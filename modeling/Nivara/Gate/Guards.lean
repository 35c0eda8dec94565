import Nivara.Gate.Credentials

/-! The guards in front of every handler, in their order: `auth/auth.guard.ts`, `rate-limit/rate-limit.guard.ts` and
`authz/permission.guard.ts`, and what the controllers declare to them. -/
namespace Nivara.Gate
open Text Authz
open Idempotency (PrincipalKind)
open Limiter (RateLimitDecision)

structure Metadata where
  isPublic : Option Bool
  principalKind : Option PrincipalKind
  permission : Option Permission
  authenticatedOnly : Option Bool
  deriving DecidableEq, Repr

def undecorated : Metadata := ⟨none, none, none, none⟩

structure Operation where
  route : String
  handler : Metadata
  controller : Metadata
  deriving DecidableEq, Repr

namespace Operation

def getAllAndOverride {α : Type} (o : Operation) (key : Metadata → Option α) : Option α := (key o.handler).or (key o.controller)

def isPublic (o : Operation) : Bool := (o.getAllAndOverride Metadata.isPublic).getD false
def requiredKind (o : Operation) : Option PrincipalKind := o.getAllAndOverride Metadata.principalKind
def required (o : Operation) : Option Permission := o.getAllAndOverride Metadata.permission
def authenticatedOnly (o : Operation) : Bool := (o.getAllAndOverride Metadata.authenticatedOnly).getD false

end Operation

inductive Verdict where
  /-- The handler runs, for the principal; a public operation has none. -/
  | passes (principal : Option RequestPrincipal)
  | refused (code message : String)
  /-- Any other error. -/
  | failed
  deriving DecidableEq

def unauthenticated : Verdict := .refused "unauthenticated" "A valid access token is required for this operation."

def forbidden : Verdict := .refused "forbidden" "This operation requires a permission your role does not hold."

def rateLimited (limit : ℕ) (retryAfterSeconds : ℤ) : Verdict :=
  .refused "rate_limited" ("Rate limit of " ++ toString limit ++ " requests per minute exceeded. Retry after " ++
    toString retryAfterSeconds ++ " seconds.")

section Guards
variable {δ ι : Type} [DecidableEq δ] [DecidableEq ι] (b : Backend δ ι) (o : Operation)

def authGuard (authorization : Option Str) : Except Verdict (Option RequestPrincipal) :=
  if o.isPublic then .ok none
  else
    match bearerToken authorization with
    | none => .error unauthenticated
    | some token =>
      match b.resolve token with
      | .error _ => .error .failed
      | .ok none => .error unauthenticated
      | .ok (some principal) => .ok (some principal)

def rateLimitGuard (check : RequestPrincipal → RateLimitDecision) (principal : Option RequestPrincipal) : Except Verdict Unit :=
  match principal with
  | none => .ok ()
  | some principal =>
    match check principal with
    | .allowed => .ok ()
    | .denied limit retryAfterSeconds => .error (rateLimited limit retryAfterSeconds)

def permissionGuard (principal : Option RequestPrincipal) : Except Verdict Unit :=
  if o.isPublic then .ok ()
  else
    match principal with
    | none => .error unauthenticated
    | some principal =>
      if o.requiredKind.any fun kind => principal.kind ≠ kind then .error forbidden
      else
        match o.required with
        | none => if o.authenticatedOnly || o.requiredKind.isSome then .ok () else .error forbidden
        | some permission => if permission ∈ principal.permissions then .ok () else .error forbidden

/-- Nest runs the guards in the order in which `AuthModule` provides them. -/
def guards (check : RequestPrincipal → RateLimitDecision) (authorization : Option Str) : Except Verdict (Option RequestPrincipal) := do
  let principal ← authGuard b o authorization
  rateLimitGuard check principal
  permissionGuard o principal
  return principal

def verdict (check : RequestPrincipal → RateLimitDecision) (authorization : Option Str) : Verdict :=
  match guards b o check authorization with
  | .ok principal => .passes principal
  | .error v => v

end Guards

/-! ## The controllers -/

def publicly : Metadata := { undecorated with isPublic := some true }
def forKind (kind : PrincipalKind) : Metadata := { undecorated with principalKind := some kind }
def withPermission (permission : Permission) : Metadata := { undecorated with permission := some permission }

def operation (route : String) (handler : Metadata) : Operation := ⟨route, handler, undecorated⟩

def analyticsController : List Operation := [operation "GET /analytics" (withPermission .analyticsRead)]

def auditController : List Operation := [operation "GET /tickets/:id/audit" (withPermission .auditRead)]

def authController : List Operation :=
  [operation "POST /auth/sign-in" publicly, operation "POST /auth/google" publicly, operation "POST /auth/refresh" publicly,
    operation "POST /auth/sign-out" publicly,
    operation "GET /auth/me" { forKind .user with authenticatedOnly := some true }]

def messagesController : List Operation :=
  [operation "POST /tickets/:id/messages" (withPermission .ticketReply),
    operation "GET /tickets/:id/messages" (withPermission .ticketRead)]

def notesController : List Operation :=
  [operation "POST /tickets/:id/notes" (withPermission .noteWrite), operation "GET /tickets/:id/notes" (withPermission .noteRead)]

def healthController : List Operation :=
  [⟨"GET /health", undecorated, publicly⟩, ⟨"GET /health/ready", undecorated, publicly⟩]

def metaController : List Operation := [⟨"GET /meta/error-codes", undecorated, publicly⟩]

def portalAuthController : List Operation :=
  [operation "POST /portal/auth/sign-in" publicly, operation "POST /portal/auth/refresh" publicly,
    operation "POST /portal/auth/sign-out" publicly, operation "GET /portal/auth/me" (forKind .contact)]

def portalTicketsController : List Operation :=
  ["POST /portal/tickets", "GET /portal/tickets", "GET /portal/tickets/:id", "GET /portal/tickets/:id/messages",
    "POST /portal/tickets/:id/messages"].map fun route => ⟨route, undecorated, forKind .contact⟩

def serviceTokensController : List Operation :=
  ["POST /service-tokens", "GET /service-tokens/scopes", "GET /service-tokens", "DELETE /service-tokens/:id"].map fun route =>
    operation route (withPermission .tokenManage)

def slackEventsController : List Operation := [operation "POST /integrations/slack/events" publicly]

def invitationsController : List Operation :=
  [operation "POST /staff/invitations" (withPermission .userInvite), operation "POST /staff/invitations/accept" publicly]

def ticketsController : List Operation :=
  [operation "POST /tickets" (withPermission .ticketCreate), operation "GET /tickets" (withPermission .ticketRead),
    operation "GET /tickets/:id" (withPermission .ticketRead), operation "GET /tickets/:id/conversation" (withPermission .ticketRead),
    operation "PATCH /tickets/:id/state" (withPermission .ticketTransition),
    operation "PATCH /tickets/:id/priority" (withPermission .ticketPriority),
    operation "PATCH /tickets/:id/assignee" (withPermission .ticketAssign)]

def widgetSessionsController : List Operation :=
  [operation "POST /widget/sessions" publicly, operation "POST /widget/sessions/renew" (forKind .widget)]

def widgetTicketsController : List Operation :=
  ["POST /widget/tickets", "GET /widget/tickets", "GET /widget/tickets/:id", "GET /widget/tickets/:id/messages",
    "POST /widget/tickets/:id/messages"].map fun route => ⟨route, undecorated, forKind .widget⟩

def controllers : List Operation :=
  analyticsController ++ auditController ++ authController ++ messagesController ++ notesController ++ healthController ++
    metaController ++ portalAuthController ++ portalTicketsController ++ serviceTokensController ++ slackEventsController ++
    invitationsController ++ ticketsController ++ widgetSessionsController ++ widgetTicketsController

end Nivara.Gate
