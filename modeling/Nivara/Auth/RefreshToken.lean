import Nivara.Basic
import Nivara.Transactions.RelyGuarantee

/-! The refresh-token ledger, from `auth/refresh-token-lifecycle.ts`,
`auth/refresh-token.service.ts`, `auth/session-rotation.ts` and the sign-in and sign-out
transactions of `auth/auth.service.ts` and `portal/portal-auth.service.ts`. -/
namespace Nivara.Auth
open Transactions

/-- 32 random bytes; two tokens are the same only if they come from the same draw. -/
abbrev Token := Nat

/-- `sha256` is taken as a free constructor: collisions and inversion do not exist. -/
inductive Digest where
  | sha256 (token : Token)
  deriving DecidableEq, Repr

def hashToken (token : Token) : Digest := .sha256 token

def slidingWindowMs : Int := 30 * 24 * 60 * 60 * 1000
def absoluteLifetimeMs : Int := 90 * 24 * 60 * 60 * 1000
def slidingExpiryFor (now : Int) : Int := now + slidingWindowMs
def familyExpiryFor (now : Int) : Int := now + absoluteLifetimeMs

/-- The timestamps the verdict turns on. -/
structure PresentedToken where
  expiresAt : Int
  familyExpiresAt : Int
  rotatedAt : Option Int
  revokedAt : Option Int
  deriving DecidableEq, Repr

inductive RejectReason where
  | revoked | expired | familyExpired
  deriving DecidableEq, Repr

inductive RefreshVerdict where
  | rotate
  | replay
  | reject (reason : RejectReason)
  deriving DecidableEq, Repr

/-- The order of the tests is the source's: revoked, rotated, family ceiling, sliding window. -/
def classifyPresentedToken (token : PresentedToken) (now : Int) : RefreshVerdict :=
  if token.revokedAt.isSome then .reject .revoked
  else if token.rotatedAt.isSome then .replay
  else if token.familyExpiresAt ≤ now then .reject .familyExpired
  else if token.expiresAt ≤ now then .reject .expired
  else .rotate

theorem classify_rotate_iff {token : PresentedToken} {now : Int} :
    classifyPresentedToken token now = .rotate ↔
      token.revokedAt = none ∧ token.rotatedAt = none ∧ now < token.familyExpiresAt ∧ now < token.expiresAt := by
  cases hv : token.revokedAt <;> cases hr : token.rotatedAt <;> simp [classifyPresentedToken, hv, hr]
  by_cases hf : token.familyExpiresAt ≤ now <;> by_cases he : token.expiresAt ≤ now <;>
    simp [hf, he, Int.not_lt.mpr, Int.not_le.mp]

structure RefreshToken extends PresentedToken where
  tenantId : Uuid
  userId : Option Uuid
  contactId : Option Uuid
  tokenHash : Digest
  familyId : Uuid
  deriving DecidableEq, Repr

inductive SubjectKind where
  | user | contact
  deriving DecidableEq, Repr

inductive SessionSubject where
  | user (userId : Uuid)
  | contact (contactId : Uuid)
  deriving DecidableEq, Repr

def SessionSubject.kind : SessionSubject → SubjectKind
  | .user _ => .user
  | .contact _ => .contact

def SessionSubject.id : SessionSubject → Uuid
  | .user userId => userId
  | .contact contactId => contactId

def subjectOf (row : RefreshToken) : Option SessionSubject :=
  match row.userId, row.contactId with
  | some userId, _ => some (.user userId)
  | none, some contactId => some (.contact contactId)
  | none, none => none

def columnsFor : SessionSubject → Option Uuid × Option Uuid
  | .user userId => (some userId, none)
  | .contact contactId => (none, some contactId)

/-- The two `UPDATE` statements of the ledger. Row-level security adds the tenant of the
armed context to both `WHERE` clauses. -/
inductive Update where
  | spend (tenantId : Uuid) (tokenHash : Digest) (now : Int)
  | revokeFamily (tenantId : Uuid) (familyId : Uuid) (now : Int)
  deriving DecidableEq, Repr

def updates : Updates Update RefreshToken where
  targets
    | .spend tenantId tokenHash _, r => r.tenantId = tenantId ∧ r.tokenHash = tokenHash ∧ r.rotatedAt = none
    | .revokeFamily tenantId familyId _, r => r.tenantId = tenantId ∧ r.familyId = familyId ∧ r.revokedAt = none
  apply
    | .spend _ _ now, r => { r with rotatedAt := some now }
    | .revokeFamily _ _ now, r => { r with revokedAt := some now }

abbrev Tx := Prog Update RefreshToken

inductive PresentedTokenOutcome where
  | unknown
  | known (verdict : RefreshVerdict) (subject : SessionSubject) (familyId : Uuid)

def byHash (tenantId : Uuid) (token : Token) (r : RefreshToken) : Bool :=
  r.tenantId = tenantId ∧ r.tokenHash = hashToken token

def classify (tenantId : Uuid) (token : Token) (now : Int) : Tx PresentedTokenOutcome := do
  match ← Prog.findFirst (byHash tenantId token) with
  | none => return .unknown
  | some row =>
    match subjectOf row with
    | none => return .unknown
    | some subject => return .known (classifyPresentedToken row.toPresentedToken now) subject row.familyId

/-- The row `write` creates. The seed names the random bytes of the token. -/
def newRow (tenantId : Uuid) (subject : SessionSubject) (now : Int) (familyId : Uuid)
    (familyExpiresAt : Int) (seed : Token) : RefreshToken where
  tenantId := tenantId
  userId := (columnsFor subject).1
  contactId := (columnsFor subject).2
  tokenHash := hashToken seed
  familyId := familyId
  expiresAt := slidingExpiryFor now
  familyExpiresAt := familyExpiresAt
  rotatedAt := none
  revokedAt := none

/-- `RefreshTokenService.write`; `familyId` is given the seed, for a family that begins here. -/
def write (tenantId : Uuid) (subject : SessionSubject) (now : Int) (familyId : Nat → Uuid)
    (familyExpiresAt : Int) : Tx Token :=
  Prog.create fun seed => newRow tenantId subject now (familyId seed) familyExpiresAt seed

def issue (tenantId : Uuid) (subject : SessionSubject) (now : Int) : Tx Token :=
  write tenantId subject now (fun seed => seed) (familyExpiryFor now)

def rotate (tenantId : Uuid) (token : Token) (now : Int) : Tx (Option Token) := do
  let spent ← Prog.updateMany (.spend tenantId (hashToken token) now)
  if spent = 0 then return none
  match ← Prog.findFirst (byHash tenantId token) with
  | none => return none
  | some predecessor =>
    match subjectOf predecessor with
    | none => return none
    | some subject =>
      let successor ← write predecessor.tenantId subject now (fun _ => predecessor.familyId)
        predecessor.familyExpiresAt
      return some successor

def revokeFamily (tenantId familyId : Uuid) (now : Int) : Tx Unit := do
  let _ ← Prog.updateMany (.revokeFamily tenantId familyId now)
  return ()

/-- `rotateRefreshSession`. `resolve` answers the re-read of the subject's row, which is in
another table. -/
def rotateRefreshSession {P : Type} (tenantId : Uuid) (token : Token) (now : Int)
    (expect : SubjectKind) (resolve : Uuid → Option P) : Tx (Option (P × Token)) := do
  match ← classify tenantId token now with
  | .unknown => return none
  | .known verdict subject familyId =>
    if subject.kind ≠ expect then return none
    match verdict with
    | .replay =>
      revokeFamily tenantId familyId now
      return none
    | .reject _ => return none
    | .rotate =>
      match resolve subject.id with
      | none => return none
      | some principal =>
        match ← rotate tenantId token now with
        | none => return none
        | some refreshToken => return some (principal, refreshToken)

def signOut (tenantId : Uuid) (token : Token) (now : Int) : Tx Unit := do
  match ← classify tenantId token now with
  | .unknown => return ()
  | .known _ _ familyId => revokeFamily tenantId familyId now

inductive Request (P : Type) where
  | signIn (tenantId : Uuid) (subject : SessionSubject) (now : Int)
  | refresh (tenantId : Uuid) (token : Token) (now : Int) (expect : SubjectKind) (resolve : Uuid → Option P)
  | signOut (tenantId : Uuid) (token : Token) (now : Int)

inductive Answer where
  | signedIn (tenantId : Uuid) (subject : SessionSubject) (now : Int) (token : Token)
  | refreshed (tenantId : Uuid) (token : Token) (now : Int) (successor : Option Token)
  | signedOut
  deriving DecidableEq, Repr

def transaction {P : Type} : Request P → Tx Answer
  | .signIn tenantId subject now => do
    let token ← issue tenantId subject now
    return .signedIn tenantId subject now token
  | .refresh tenantId token now expect resolve => do
    let session ← rotateRefreshSession tenantId token now expect resolve
    return .refreshed tenantId token now (session.map Prod.snd)
  | .signOut tenantId token now => do
    signOut tenantId token now
    return .signedOut

abbrev Ledger := Db Nat Update RefreshToken Answer
abbrev LedgerSystem := System Nat Update RefreshToken Answer

end Nivara.Auth
