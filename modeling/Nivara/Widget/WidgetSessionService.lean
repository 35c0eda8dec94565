import Nivara.Basic
import Nivara.Transactions.Table

/-! Anonymous visitors, from `widget/widget-session.service.ts`, `widget/widget-session-token.ts` and
`widget/origin-allowlist.ts`. Every statement of every call is a step of its own, under READ COMMITTED. -/
namespace Nivara.Widget
open Transactions

def widgetSessionTtlSeconds : Int := 30 * 60
def widgetTokenPrefix : String := "nvw_"

/-- A value in the claims of a token, as far as it is looked at. -/
inductive Claim where
  | text (s : String)
  | other
  deriving DecidableEq, Repr

/-- Claims that are an object, by their keys; a key that is absent is `undefined`. -/
abbrev Claims := String → Option Claim

/-- What is called and not written here: the JWT package, which looks at the signature, the issuer, the audience and
the clock, and the reading of a uuid and of a header's letters. -/
structure Library where
  /-- `none` is a token that does not verify; claims that are no object are `some none`. -/
  verifyAsync : String → Int → Option (Option Claims)
  /-- The token for a session, from an instant on. -/
  signAsync : Uuid → Uuid → Int → String
  uuid : String → Option Uuid
  toLowerCase : String → String

def stripWidgetPrefix (value : String) : String := .ofList (value.toList.drop widgetTokenPrefix.length)

def nonEmptyString : Option Claim → Option String
  | some (.text s) => if s = "" then none else some s
  | _ => none

structure WidgetSessionRef where
  sessionId : String
  tenantId : String
  deriving DecidableEq, Repr

def sessionFromClaims (claims : Option Claims) : Option WidgetSessionRef := do
  let claims ← claims
  if claims "kind" ≠ some (.text "widget") then none
  else
    let sub ← nonEmptyString (claims "sub")
    let tenantId ← nonEmptyString (claims "tenantId")
    some ⟨sub, tenantId⟩

def isBlank (c : Char) : Bool :=
  c = ' ' || ('\x09' ≤ c && c ≤ '\x0d') || c = '\u00a0' || c = '\u1680' || ('\u2000' ≤ c && c ≤ '\u200a') ||
    c = '\u2028' || c = '\u2029' || c = '\u202f' || c = '\u205f' || c = '\u3000' || c = '\ufeff'

def normalizeOrigin (lib : Library) (value : Option String) : Option String := do
  let trimmed : String := .ofList (((← value).toList.dropWhile isBlank).reverse.dropWhile isBlank).reverse
  if trimmed = "" ∨ trimmed = "null" then none
  else some (.ofList ((lib.toLowerCase trimmed).toList.reverse.dropWhile (· = '/')).reverse)

def originIsAllowed (lib : Library) (origin : Option String) (allowed : List String) : Bool :=
  match normalizeOrigin lib origin with
  | none => false
  | some candidate => allowed.any fun entry => normalizeOrigin lib (some entry) = some candidate

structure WidgetSession where
  tenantId : Uuid
  contactId : Option Uuid
  expiresAt : Int
  revokedAt : Option Int
  deriving DecidableEq, Repr

/-- A row of `contact`, as a visitor gets it: anonymous in every other column. -/
structure Contact where
  tenantId : Uuid
  deriving DecidableEq, Repr

structure WidgetPrincipal where
  tenantId : Uuid
  sessionId : Uuid
  contactId : Option Uuid
  deriving DecidableEq, Repr

inductive WidgetRequest where
  | bootstrap (tenantId : Uuid) (origin : Option String)
  | verify (raw : String)
  | renew (principal : WidgetPrincipal) (origin : Option String)
  | contactPrincipalFor (principal : WidgetPrincipal)
  | revoke (tenantId sessionId : Uuid)
  deriving DecidableEq, Repr

inductive WidgetAnswer where
  | granted (token : String) (expiresInSeconds : Int)
  | verified (principal : Option WidgetPrincipal)
  | contact (tenantId contactId : Uuid)
  | revoked
  | refused (code message : String)
  /-- Any other error: the call's transaction is rolled back. -/
  | failed
  deriving DecidableEq, Repr

def refuseOrigin : WidgetAnswer := .refused "forbidden" "This origin may not start a widget session for this tenant."

inductive Outcome where
  | originRefused
  | grant (sessionId tenantId : Uuid) (expiresAt : Int)
  | sessionDead
  | requester (tenantId : Uuid) (contactId : Option Uuid)
  | revoked
  deriving DecidableEq, Repr

def roundSeconds (ms : Int) : Int := (ms + 500) / 1000

def Outcome.answer (lib : Library) (now : Int) : Outcome → WidgetAnswer
  | .originRefused => refuseOrigin
  | .grant sessionId tenantId expiresAt =>
    .granted (widgetTokenPrefix ++ lib.signAsync sessionId tenantId now) (max 0 (roundSeconds (expiresAt - now)))
  | .sessionDead => .refused "unauthenticated" "This widget session can no longer be renewed. Start a new one."
  | .requester tenantId (some contactId) => .contact tenantId contactId
  | .requester _ none => .refused "unauthenticated" "This widget session is no longer valid."
  | .revoked => .revoked

inductive WidgetCall where
  | bootstrapOrigin (tenantId : Uuid) (origin : Option String) (expiresAt : Int)
  | createSession (tenantId : Uuid) (expiresAt : Int)
  | findSession (tenantId sessionId : Uuid)
  /-- Outside any transaction. -/
  | inspect (tenantId sessionId : Uuid) (session : Option WidgetSession)
  | renewOrigin (principal : WidgetPrincipal) (origin : Option String) (expiresAt : Int)
  | extend (principal : WidgetPrincipal) (expiresAt : Int)
  | lockSession (principal : WidgetPrincipal)
  | createContact (principal : WidgetPrincipal)
  | setContact (principal : WidgetPrincipal) (contactId : Uuid)
  | kill (tenantId sessionId : Uuid)
  /-- The transaction commits, and the call answers. -/
  | commit (outcome : Outcome)
  /-- The call throws inside its transaction. -/
  | rollback
  /-- The call answers, outside any transaction. -/
  | reply (answer : WidgetAnswer)
  deriving DecidableEq, Repr

def expiryFrom (now : Int) : Int := now + widgetSessionTtlSeconds * 1000

def WidgetRequest.start (lib : Library) (now : Int) : WidgetRequest → WidgetCall
  | .bootstrap tenantId origin => .bootstrapOrigin tenantId origin (expiryFrom now)
  | .verify raw =>
    match (lib.verifyAsync (stripWidgetPrefix raw) now).bind sessionFromClaims with
    | none => .reply (.verified none)
    | some ref =>
      match lib.uuid ref.tenantId, lib.uuid ref.sessionId with
      | some tenantId, some sessionId => .findSession tenantId sessionId
      | _, _ => .reply .failed
  | .renew principal origin => .renewOrigin principal origin (expiryFrom now)
  | .contactPrincipalFor principal =>
    match principal.contactId with
    | some contactId => .reply (.contact principal.tenantId contactId)
    | none => .lockSession principal
  | .revoke tenantId sessionId => .kill tenantId sessionId

inductive WidgetEvent where
  /-- It was read, and is not revoked. -/
  | saw (sessionId : Uuid)
  | renewed (sessionId : Uuid)
  /-- A Contact was inserted for it. -/
  | created (sessionId contactId : Uuid)
  deriving DecidableEq, Repr

/-- The tables and the open calls. `tenants` has the origins of each tenant. `requests` keeps what each call asked
and `history` what its statements did; they are kept for the statements below and read by nothing. -/
structure Visitors (ι : Type) where
  clock : Int
  tenants : Uuid → Option (List String)
  sessions : Table ι WidgetSession
  contacts : Table ι Contact
  requests : ι → Option WidgetRequest
  calls : ι → Option WidgetCall
  history : List (ι × WidgetEvent)
  answers : List (ι × WidgetAnswer)

inductive WidgetAction (ι : Type) where
  | tick (now : Int)
  /-- A tenant is there, with these origins. -/
  | configure (tenantId : Uuid) (widgetOrigins : List String)
  | begin (i : ι) (request : WidgetRequest)
  | advance (i : ι)
  /-- The call fails and its transaction is rolled back. -/
  | abort (i : ι)
  /-- The transaction commits, but the answer is lost. -/
  | lose (i : ι)

namespace Visitors
variable {ι : Type} [DecidableEq ι]

omit [DecidableEq ι] in
def initial : Visitors ι := ⟨0, fun _ => none, Table.empty, Table.empty, fun _ => none, fun _ => none, [], []⟩

def goto (s : Visitors ι) (i : ι) (call : WidgetCall) : Visitors ι := { s with calls := Function.update s.calls i (some call) }

def closed (s : Visitors ι) (i : ι) : Visitors ι := { s with calls := Function.update s.calls i none }

def committed (s : Visitors ι) (i : ι) : Visitors ι :=
  { s.closed i with sessions := s.sessions.commit i, contacts := s.contacts.commit i }

def rolledBack (s : Visitors ι) (i : ι) : Visitors ι :=
  { s.closed i with sessions := s.sessions.rollback i, contacts := s.contacts.rollback i }

omit [DecidableEq ι] in
def answered (s : Visitors ι) (i : ι) (answer : WidgetAnswer) : Visitors ι := { s with answers := s.answers ++ [(i, answer)] }

omit [DecidableEq ι] in
def happened (s : Visitors ι) (i : ι) (e : WidgetEvent) : Visitors ι := { s with history := s.history ++ [(i, e)] }

omit [DecidableEq ι] in
def originPasses (lib : Library) (s : Visitors ι) (tenantId : Uuid) (origin : Option String) : Bool :=
  (s.tenants tenantId).any (originIsAllowed lib origin)

omit [DecidableEq ι] in
def issued (s : Visitors ι) (principal : WidgetPrincipal) : Bool := s.answers.any fun a => a.2 = .verified (some principal)

omit [DecidableEq ι] in
def carried (s : Visitors ι) : WidgetRequest → Bool
  | .renew principal _ => s.issued principal
  | .contactPrincipalFor principal => s.issued principal
  | _ => true

/-- An `UPDATE` or a `SELECT … FOR UPDATE` of one session, under the tenant's policy: it waits for the row's lock, and
looks at the row as it is then. -/
def onSession (s : Visitors ι) (i : ι) (tenantId sessionId : Uuid) (p : WidgetSession → Bool) (f : WidgetSession → WidgetSession)
    (next : WidgetSession → Visitors ι → Visitors ι) (missed : WidgetCall) : Option (Visitors ι) :=
  (s.sessions.updateById i sessionId (fun r => r.tenantId = tenantId && p r) f).map fun
    | some (sessions, row) => next row { s with sessions := sessions }
    | none => s.goto i missed

def advance (lib : Library) (s : Visitors ι) (i : ι) : WidgetCall → Option (Visitors ι)
  | .bootstrapOrigin tenantId origin expiresAt =>
    if s.originPasses lib tenantId origin then some (s.goto i (.createSession tenantId expiresAt))
    else some (s.goto i (.commit .originRefused))
  | .createSession tenantId expiresAt =>
    some { s.goto i (.commit (.grant s.sessions.size tenantId expiresAt)) with
      sessions := s.sessions.insert i ⟨tenantId, none, expiresAt, none⟩ }
  | .findSession tenantId sessionId =>
    let session := (s.sessions.visible i sessionId).filter fun r => r.tenantId = tenantId
    let s := s.goto i (.inspect tenantId sessionId session)
    some (if session.any fun r => r.revokedAt.isNone then s.happened i (.saw sessionId) else s)
  | .inspect tenantId sessionId session =>
    match session with
    | none => some (s.goto i (.reply (.verified none)))
    | some r =>
      if r.revokedAt.isSome then some (s.goto i (.reply (.verified none)))
      else if r.expiresAt ≤ s.clock then some (s.goto i (.reply (.verified none)))
      else some (s.goto i (.reply (.verified (some ⟨tenantId, sessionId, r.contactId⟩))))
  | .renewOrigin principal origin expiresAt =>
    if s.originPasses lib principal.tenantId origin then some (s.goto i (.extend principal expiresAt))
    else some (s.goto i (.commit .originRefused))
  | .extend principal expiresAt =>
    s.onSession i principal.tenantId principal.sessionId (fun r => r.revokedAt.isNone) (fun r => { r with expiresAt := expiresAt })
      (fun _ t => (t.goto i (.commit (.grant principal.sessionId principal.tenantId expiresAt))).happened i
        (.renewed principal.sessionId))
      (.commit .sessionDead)
  | .lockSession principal =>
    s.onSession i principal.tenantId principal.sessionId (fun r => r.revokedAt.isNone) (fun r => r)
      (fun row t => match row.contactId with
        | some contactId => t.goto i (.commit (.requester principal.tenantId (some contactId)))
        | none => t.goto i (.createContact principal))
      (.commit (.requester principal.tenantId none))
  | .createContact principal =>
    some ({ s.goto i (.setContact principal s.contacts.size) with contacts := s.contacts.insert i ⟨principal.tenantId⟩ }.happened i
      (.created principal.sessionId s.contacts.size))
  | .setContact principal contactId =>
    s.onSession i principal.tenantId principal.sessionId (fun _ => true) (fun r => { r with contactId := some contactId })
      (fun _ t => t.goto i (.commit (.requester principal.tenantId (some contactId)))) .rollback
  | .kill tenantId sessionId =>
    s.onSession i tenantId sessionId (fun _ => true) (fun r => { r with revokedAt := some s.clock })
      (fun _ t => t.goto i (.commit .revoked)) .rollback
  | .commit outcome => some ((s.committed i).answered i (outcome.answer lib s.clock))
  | .rollback => some ((s.rolledBack i).answered i .failed)
  | .reply answer => some ((s.closed i).answered i answer)

def step (lib : Library) (s : Visitors ι) : WidgetAction ι → Option (Visitors ι)
  | .tick now => if s.clock ≤ now then some { s with clock := now } else none
  | .configure tenantId widgetOrigins => some { s with tenants := Function.update s.tenants tenantId (some widgetOrigins) }
  | .begin i request =>
    match s.requests i with
    | none =>
      if s.carried request then
        some { s.goto i (request.start lib s.clock) with requests := Function.update s.requests i (some request) }
      else none
    | some _ => none
  | .advance i => (s.calls i).bind (s.advance lib i)
  | .abort i => (s.calls i).map fun _ => (s.rolledBack i).answered i .failed
  | .lose i =>
    match s.calls i with
    | some (.commit _) => some (s.committed i)
    | _ => none

end Visitors
end Nivara.Widget
