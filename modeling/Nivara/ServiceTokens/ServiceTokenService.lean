import Nivara.Authz.ServiceScopes
import Nivara.ServiceTokens.ServiceTokenFormat
import Nivara.Transactions.Table

/-! Credentials of machines, from `service-tokens/service-token.service.ts`. Every statement of every call is a step of
its own, under READ COMMITTED. -/
namespace Nivara.ServiceTokens
open Authz Text Transactions

/-- A row of `service_token`. `δ` is what `sha256` yields. -/
structure ServiceToken (δ : Type) where
  tenantId : Uuid
  name : String
  tokenHash : δ
  scopes : List String
  createdById : Uuid
  revokedAt : Option Int
  deriving DecidableEq

/-- An admin, as far as the tokens are concerned. The tenant is as the access token spells it. -/
structure StaffPrincipal where
  tenantId : Str
  userId : Uuid
  deriving DecidableEq

structure ServicePrincipal where
  tenantId : Uuid
  tokenId : Uuid
  scopes : List Permission
  deriving DecidableEq, Repr

structure MintTokenInput where
  name : String
  scopes : List String
  deriving DecidableEq

inductive TokenAudit where
  | minted (tenantId userId targetId : Uuid) (name : String) (scopes : List Permission)
  | revoked (tenantId userId targetId : Uuid) (name : String)
  deriving DecidableEq

inductive TokenRequest where
  | mint (principal : StaffPrincipal) (input : MintTokenInput) (secret : Secret)
  | revoke (principal : StaffPrincipal) (tokenId : Uuid)
  | verify (raw : Str)
  /-- Another program writes the column of the scopes. -/
  | rescope (tokenId : Uuid) (scopes : List String)
  deriving DecidableEq

inductive TokenAnswer where
  | minted (tokenId : Uuid) (raw : Str)
  | revoked
  | principal (principal : Option ServicePrincipal)
  | rescoped
  | refused (code message : String)
  /-- Any other error: the call's transaction is rolled back. -/
  | failed
  deriving DecidableEq

def alreadyRevoked : TokenAnswer :=
  .refused "conflict" "This service token is already revoked. Revocation is final — mint a new token to restore access."

def notFound : TokenAnswer := .refused "not_found" "No such ServiceToken."

def joined (names : List String) : String := ", ".intercalate names

def acceptedScopes (requested : List String) : Except TokenAnswer (List Permission) :=
  match classifyScopes requested with
  | .accept scopes => .ok scopes
  | .empty => .error (.refused "validation_failed"
      "A service token needs at least one scope. A token with none could authenticate and then do nothing.")
  | .unknown offending => .error (.refused "validation_failed"
      ("Not a permission in this API: " ++ joined offending ++ ". GET /service-tokens/scopes lists what may be granted."))
  | .forbidden offending => .error (.refused "validation_failed"
      ("These permissions cannot be granted to a service token: " ++ joined (offending.map Permission.text) ++
        ". Destructive, configuration, user-management and audit-read authority is reserved to staff."))

inductive TokenCall (δ : Type) where
  | createToken (principal : StaffPrincipal) (input : MintTokenInput) (scopes : List Permission) (secret : Secret)
  | auditMinted (principal : StaffPrincipal) (tokenId : Uuid) (name : String) (scopes : List Permission) (raw : Str)
  | findUnique (principal : StaffPrincipal) (tokenId : Uuid)
  | markRevoked (principal : StaffPrincipal) (tokenId : Uuid) (name : String)
  | auditRevoked (principal : StaffPrincipal) (tokenId : Uuid) (name : String)
  | findToken (ref : ServiceTokenRef δ)
  | setScopes (tokenId : Uuid) (scopes : List String)
  /-- The transaction commits, and the call answers. -/
  | commit (answer : TokenAnswer)
  /-- The call throws inside its transaction. -/
  | rollback (answer : TokenAnswer)
  /-- The call answers before it has begun a transaction. -/
  | reply (answer : TokenAnswer)
  deriving DecidableEq

section Start
variable {δ : Type} (sha256 : List UInt8 → δ)

def TokenRequest.start : TokenRequest → TokenCall δ
  | .mint principal input secret =>
    match acceptedScopes input.scopes with
    | .error answer => .reply answer
    | .ok scopes => if isTenantIdShaped principal.tenantId then .createToken principal input scopes secret else .reply .failed
  | .revoke principal tokenId => if isTenantIdShaped principal.tenantId then .findUnique principal tokenId else .reply .failed
  | .verify raw =>
    match parseServiceToken sha256 raw with
    | none => .reply (.principal none)
    | some ref => .findToken ref
  | .rescope tokenId scopes => .setScopes tokenId scopes

end Start

/-- The table and the open calls. `recorded` has the audit rows of an open transaction, and `log` the committed ones with
the call that wrote them; `requests` keeps what each call asked, and is read by nothing. -/
structure Registry (δ ι : Type) where
  clock : Int
  tokens : Table ι (ServiceToken δ)
  recorded : ι → List TokenAudit
  log : List (ι × TokenAudit)
  requests : ι → Option TokenRequest
  calls : ι → Option (TokenCall δ)
  answers : List (ι × TokenAnswer)

inductive TokenAction (ι : Type) where
  | tick (now : Int)
  | begin (i : ι) (request : TokenRequest)
  | advance (i : ι)
  /-- The call fails and its transaction is rolled back. -/
  | abort (i : ι)
  /-- The transaction commits, but the answer is lost. -/
  | lose (i : ι)

namespace Registry
variable {δ ι : Type} [DecidableEq ι]

omit [DecidableEq ι] in
def initial : Registry δ ι := ⟨0, Table.empty, fun _ => [], [], fun _ => none, fun _ => none, []⟩

def goto (s : Registry δ ι) (i : ι) (call : TokenCall δ) : Registry δ ι := { s with calls := Function.update s.calls i (some call) }

def closed (s : Registry δ ι) (i : ι) : Registry δ ι :=
  { s with calls := Function.update s.calls i none, recorded := Function.update s.recorded i [] }

def committed (s : Registry δ ι) (i : ι) : Registry δ ι :=
  { s.closed i with tokens := s.tokens.commit i, log := s.log ++ (s.recorded i).map (i, ·) }

def rolledBack (s : Registry δ ι) (i : ι) : Registry δ ι := { s.closed i with tokens := s.tokens.rollback i }

omit [DecidableEq ι] in
def answered (s : Registry δ ι) (i : ι) (answer : TokenAnswer) : Registry δ ι := { s with answers := s.answers ++ [(i, answer)] }

def record (s : Registry δ ι) (i : ι) (entry : TokenAudit) : Registry δ ι :=
  { s with recorded := Function.update s.recorded i (s.recorded i ++ [entry]) }

/-- An `UPDATE` of one token: it waits for the row's lock, and tests the row as it is then. -/
def onToken (s : Registry δ ι) (i : ι) (tokenId : Uuid) (p : ServiceToken δ → Bool) (f : ServiceToken δ → ServiceToken δ)
    (next missed : TokenCall δ) : Option (Registry δ ι) :=
  (s.tokens.updateById i tokenId p f).map fun
    | some (tokens, _) => { s.goto i next with tokens := tokens }
    | none => s.goto i missed

variable [DecidableEq δ]

/-- What `verify` makes of the row it finds, under the policy of the tenant that the token names. -/
def lookup (s : Registry δ ι) (i : ι) (ref : ServiceTokenRef δ) : Option ServicePrincipal :=
  match s.tokens.locate i fun r => r.tenantId = uuidOf ref.tenantId && r.tokenHash = ref.tokenHash with
  | none => none
  | some (tokenId, token) =>
    if token.revokedAt.isSome then none else some ⟨token.tenantId, tokenId, grantedScopes token.scopes⟩

def advance (sha256 : List UInt8 → δ) (s : Registry δ ι) (i : ι) : TokenCall δ → Option (Registry δ ι)
  | .createToken v input scopes secret =>
    let raw := mintServiceToken v.tenantId secret
    let row : ServiceToken δ :=
      ⟨uuidOf v.tenantId, input.name, hashServiceToken sha256 raw, scopes.map Permission.text, v.userId, none⟩
    let same : Nat → ServiceToken δ → Bool := fun _ r => r.tokenHash = row.tokenHash
    if s.tokens.taken i same then some (s.goto i (.rollback .failed))
    else if s.tokens.contested i same then none
    else some { s.goto i (.auditMinted v s.tokens.size input.name scopes raw) with tokens := s.tokens.insert i row }
  | .auditMinted v tokenId name scopes raw =>
    some ((s.goto i (.commit (.minted tokenId raw))).record i (.minted (uuidOf v.tenantId) v.userId tokenId name scopes))
  | .findUnique v tokenId =>
    match (s.tokens.visible i tokenId).filter fun r => r.tenantId = uuidOf v.tenantId with
    | none => some (s.goto i (.rollback notFound))
    | some existing => some (s.goto i (.markRevoked v tokenId existing.name))
  | .markRevoked v tokenId name =>
    s.onToken i tokenId (fun r => r.tenantId = uuidOf v.tenantId && r.revokedAt.isNone)
      (fun r => { r with revokedAt := some s.clock }) (.auditRevoked v tokenId name) (.rollback alreadyRevoked)
  | .auditRevoked v tokenId name =>
    some ((s.goto i (.commit .revoked)).record i (.revoked (uuidOf v.tenantId) v.userId tokenId name))
  | .findToken ref => some ((s.closed i).answered i (.principal (s.lookup i ref)))
  | .setScopes tokenId scopes =>
    s.onToken i tokenId (fun _ => true) (fun r => { r with scopes := scopes }) (.commit .rescoped) (.commit .rescoped)
  | .commit answer => some ((s.committed i).answered i answer)
  | .rollback answer => some ((s.rolledBack i).answered i answer)
  | .reply answer => some ((s.closed i).answered i answer)

def step (sha256 : List UInt8 → δ) (s : Registry δ ι) : TokenAction ι → Option (Registry δ ι)
  | .tick now => if s.clock ≤ now then some { s with clock := now } else none
  | .begin i request =>
    match s.requests i with
    | none => some { s.goto i (request.start sha256) with requests := Function.update s.requests i (some request) }
    | some _ => none
  | .advance i => (s.calls i).bind (s.advance sha256 i)
  | .abort i => (s.calls i).map fun _ => (s.rolledBack i).answered i .failed
  | .lose i =>
    match s.calls i with
    | some (.commit _) => some (s.committed i)
    | _ => none

end Registry
end Nivara.ServiceTokens
