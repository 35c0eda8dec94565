import Nivara.Idempotency.Scope
import Nivara.Limiter.ClientIp
import Nivara.ServiceTokens.ServiceTokenService
import Nivara.Tickets.Desk
import Nivara.Widget.WidgetSessionService

/-! From the value of a header to a principal, as `auth/auth.guard.ts`, `auth/access-token.service.ts`,
`auth/request-principal.ts` and the verifiers of the other two kinds of token have it. -/
namespace Nivara.Gate
open Text Authz
open Idempotency (PrincipalKind)
open Limiter (isBlank trim)
open ServiceTokens (Registry ServicePrincipal isServiceToken isTenantIdShaped parseServiceToken uuidOf)
open Widget (Claims Visitors WidgetPrincipal nonEmptyString sessionFromClaims)

structure StaffPrincipal where
  tenantId : String
  userId : String
  role : UserRole
  deriving DecidableEq, Repr

structure ContactPrincipal where
  tenantId : String
  contactId : String
  deriving DecidableEq, Repr

/-- Who makes a request. A staff member and a Contact are named as their token names them, the others as their row is. -/
inductive RequestPrincipal where
  | user (principal : StaffPrincipal)
  | contact (principal : ContactPrincipal)
  | widget (principal : WidgetPrincipal)
  | service (principal : ServicePrincipal)
  deriving DecidableEq

namespace RequestPrincipal

def kind : RequestPrincipal → PrincipalKind
  | .user _ => .user
  | .contact _ => .contact
  | .widget _ => .widget
  | .service _ => .service

def authority : RequestPrincipal → Principal
  | .user p => .user (some p.role)
  | .contact _ => .contact
  | .widget _ => .widget
  | .service p => .service p.scopes

def permissions (p : RequestPrincipal) : List Permission := permissionsFor p.authority

end RequestPrincipal

def uuid (text : String) : Option Uuid := if isTenantIdShaped (units text) then some (uuidOf (units text)) else none

/-- `tenantContextFor` and `contextSettings`: the tenant and the actor a transaction is armed with. `none` is an
`InvalidTenantContextError`, or an identifier that Postgres refuses. -/
def tenantContextFor : RequestPrincipal → Option (Uuid × Tickets.Actor)
  | .user p => do return (← uuid p.tenantId, .user (← uuid p.userId))
  | .contact p => do return (← uuid p.tenantId, .contact (← uuid p.contactId))
  | .service p => some (p.tenantId, .service p.tokenId)
  | .widget p => p.contactId.map fun contactId => (p.tenantId, .contact contactId)

/-! ## Signed tokens -/

structure JwtOptions where
  secret : String
  issuer : String
  audience : String
  deriving DecidableEq, Repr

/-- What is signed, and when; `expiresIn` is in seconds. -/
structure Signature where
  claims : Claims
  options : JwtOptions
  expiresIn : Int
  at' : Int

/-- A token counts whole seconds. -/
def Signature.Lasts (g : Signature) (now : Int) : Prop := now / 1000 < g.at' / 1000 + g.expiresIn

/-- The JWT package. `none` is a token that does not verify; claims that are no object are `some none`. -/
structure Jwt where
  signAsync : Signature → Str
  verifyAsync : Str → JwtOptions → Int → Option (Option Claims)

structure AppConfig where
  jwtSecret : String
  widgetSessionSecret : String

def AppConfig.accessOptions (config : AppConfig) : JwtOptions := ⟨config.jwtSecret, "nivara-desk", "nivara-api"⟩
def AppConfig.widgetOptions (config : AppConfig) : JwtOptions := ⟨config.widgetSessionSecret, "nivara-desk", "nivara-widget"⟩

def accessTokenTtlSeconds : Int := 15 * 60

def roleText : UserRole → String
  | .agent => "agent"
  | .admin => "admin"

def claimsOf (members : List (String × String)) : Claims := fun key => (members.lookup key).map .text

def staffClaims (p : StaffPrincipal) : Claims :=
  claimsOf [("kind", "user"), ("sub", p.userId), ("tenantId", p.tenantId), ("role", roleText p.role)]

def contactClaims (p : ContactPrincipal) : Claims :=
  claimsOf [("kind", "contact"), ("sub", p.contactId), ("tenantId", p.tenantId)]

def widgetClaims (tenantId sessionId : String) : Claims :=
  claimsOf [("kind", "widget"), ("sub", sessionId), ("tenantId", tenantId)]

/-- A token that the server has given out: by `AccessTokenService.sign`, for its two kinds of principal, or by
`WidgetSessionService.grantFor`. -/
inductive Grant where
  | staff (principal : StaffPrincipal) (at' : Int)
  | contact (principal : ContactPrincipal) (at' : Int)
  | widget (tenantId sessionId : String) (at' : Int)
  deriving DecidableEq, Repr

def Grant.signature (config : AppConfig) : Grant → Signature
  | .staff p at' => ⟨staffClaims p, config.accessOptions, accessTokenTtlSeconds, at'⟩
  | .contact p at' => ⟨contactClaims p, config.accessOptions, accessTokenTtlSeconds, at'⟩
  | .widget tenantId sessionId at' => ⟨widgetClaims tenantId sessionId, config.widgetOptions, Widget.widgetSessionTtlSeconds, at'⟩

def roleNamed : Option Widget.Claim → Option UserRole
  | some (.text role) => [UserRole.agent, .admin].find? fun r => roleText r = role
  | _ => none

def principalFromClaims (claims : Option Claims) : Option RequestPrincipal := do
  let claims ← claims
  let sub ← nonEmptyString (claims "sub")
  let tenantId ← nonEmptyString (claims "tenantId")
  if claims "kind" = some (.text "user") then
    let role ← roleNamed (claims "role")
    some (.user ⟨tenantId, sub, role⟩)
  else if claims "kind" = some (.text "contact") then some (.contact ⟨tenantId, sub⟩)
  else none

/-! ## The header -/

def widgetTokenPrefix : Str := units Widget.widgetTokenPrefix

def isWidgetToken (value : Str) : Bool := widgetTokenPrefix.isPrefixOf value

def stripWidgetPrefix (value : Str) : Str := value.drop widgetTokenPrefix.length

/-- `toLowerCase`, as far as it can lead to `bearer`: no unit beyond ASCII becomes one of its letters. -/
def lower (c : CodeUnit) : CodeUnit := if 65 ≤ c.toNat ∧ c.toNat ≤ 90 then (c.toNat + 32).toUInt16 else c

def space : CodeUnit := unit ' '

def bearerToken (header : Option Str) : Option Str :=
  match header with
  | none => none
  | some header =>
    match header.splitOn space with
    | [] => none
    | scheme :: rest =>
      if scheme.map lower ≠ units "bearer" then none
      else
        let value := trim ([space].intercalate rest)
        if value = [] then none else some value

/-- What a request is judged on: the keys, the two tables that tokens are looked up in as a statement of transaction `i`
sees them, and the clock. -/
structure Backend (δ ι : Type) where
  jwt : Jwt
  config : AppConfig
  sha256 : List UInt8 → δ
  tokens : Registry δ ι
  visitors : Visitors ι
  i : ι
  now : Int

namespace Backend
variable {δ ι : Type} (b : Backend δ ι)

def verifyAccess (token : Str) : Option RequestPrincipal :=
  (b.jwt.verifyAsync token b.config.accessOptions b.now).bind principalFromClaims

variable [DecidableEq ι]

/-- `WidgetSessionService.verify`; an error is an identifier that cannot be armed or looked up. -/
def verifyWidget (raw : Str) : Except Unit (Option WidgetPrincipal) :=
  match (b.jwt.verifyAsync (stripWidgetPrefix raw) b.config.widgetOptions b.now).bind sessionFromClaims with
  | none => .ok none
  | some ref =>
    match uuid ref.tenantId, uuid ref.sessionId with
    | some tenantId, some sessionId =>
      match (b.visitors.sessions.visible b.i sessionId).filter fun r => r.tenantId = tenantId with
      | none => .ok none
      | some r =>
        if r.revokedAt.isSome then .ok none
        else if r.expiresAt ≤ b.now then .ok none
        else .ok (some ⟨tenantId, sessionId, r.contactId⟩)
    | _, _ => .error ()

variable [DecidableEq δ]

def verifyService (raw : Str) : Option ServicePrincipal := (parseServiceToken b.sha256 raw).bind (b.tokens.lookup b.i)

def resolve (token : Str) : Except Unit (Option RequestPrincipal) :=
  if isServiceToken token then .ok ((b.verifyService token).map .service)
  else if isWidgetToken token then (b.verifyWidget token).map (Option.map .widget)
  else .ok (b.verifyAccess token)

end Backend
end Nivara.Gate
