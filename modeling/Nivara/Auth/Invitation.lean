import Nivara.Auth.RefreshToken
import Nivara.Transactions.Table

/-! Staff invitations and the two sign-ins, from `staff/invitation-lifecycle.ts`,
`staff/invitation.service.ts`, `auth/password.service.ts` and `signIn` and `signInWithGoogle` of
`auth/auth.service.ts`. Every statement of every call is a step of its own, under READ COMMITTED. -/
namespace Nivara.Auth
open Transactions

def invitationWindowMs : Int := 7 * 24 * 60 * 60 * 1000
def invitationExpiryFor (now : Int) : Int := now + invitationWindowMs

inductive UserRole where
  | agent | admin
  deriving DecidableEq, Repr

structure User where
  tenantId : Uuid
  email : String
  name : String
  role : UserRole
  passwordHash : Option String
  googleSubject : Option String
  deriving DecidableEq, Repr

structure StaffInvitation where
  tenantId : Uuid
  userId : Uuid
  tokenHash : Digest
  invitedById : Uuid
  expiresAt : Int
  acceptedAt : Option Int
  deriving DecidableEq, Repr

inductive InvitationReason where
  | accepted | expired
  deriving DecidableEq, Repr

inductive InvitationVerdict where
  | accept
  | reject (reason : InvitationReason)
  deriving DecidableEq, Repr

def classifyInvitation (invitation : StaffInvitation) (now : Int) : InvitationVerdict :=
  if invitation.acceptedAt.isSome then .reject .accepted
  else if invitation.expiresAt ≤ now then .reject .expired
  else .accept

theorem classify_accept_iff {invitation : StaffInvitation} {now : Int} :
    classifyInvitation invitation now = .accept ↔ invitation.acceptedAt = none ∧ now < invitation.expiresAt := by
  cases ha : invitation.acceptedAt <;> by_cases he : invitation.expiresAt ≤ now <;>
    simp [classifyInvitation, ha, he, Int.not_lt.mpr, Int.not_le.mp]

/-- What is called and not written here: the argon2 package, whose hash is salted, and the
language's `toLowerCase`. -/
structure Library where
  argon2Hash : String → Nat → String
  argon2Verify : String → String → Bool
  toLowerCase : String → String

/-- `PasswordService.verify`: nothing is verified against a missing hash. -/
def Library.verify (lib : Library) (hash : Option String) (password : String) : Bool :=
  hash.any fun hash => lib.argon2Verify hash password

/-- What an admin says of the person invited, and the random token drawn for them. -/
structure Invitee where
  tenantId : Uuid
  invitedById : Uuid
  email : String
  name : String
  role : UserRole
  token : Token
  deriving DecidableEq, Repr

structure GoogleIdentity where
  tenantId : Uuid
  subject : String
  email : String
  deriving DecidableEq, Repr

inductive DoorRequest where
  | invite (invitee : Invitee)
  | accept (tenantId : Uuid) (token : Token) (password : String) (salt : Nat)
  | signIn (tenantId : Uuid) (email password : String)
  | signInWithGoogle (identity : GoogleIdentity)
  deriving DecidableEq, Repr

inductive DoorAnswer where
  | issued (invitationId userId : Uuid) (token : Token)
  | accepted
  | session (userId : Uuid) (role : UserRole) (refreshToken : Token)
  | refused (code message : String)
  /-- Any other error: the call's transaction is rolled back. -/
  | failed
  deriving DecidableEq, Repr

def refuse : DoorAnswer :=
  .refused "unauthenticated" "This invitation is not valid. Ask an administrator to send a new one."

def refuseAuthentication : DoorAnswer := .refused "unauthenticated" "Invalid credentials."

inductive DoorCall where
  | createUser (invitee : Invitee)
  | createInvitation (invitee : Invitee) (userId : Uuid)
  | findInvitation (tenantId : Uuid) (token : Token) (password : String) (salt : Nat)
  /-- Outside any transaction. -/
  | hashPassword (tenantId id : Uuid) (invitation : StaffInvitation) (password : String) (salt : Nat)
  | spend (tenantId id : Uuid) (invitation : StaffInvitation) (passwordHash : String)
  | setPassword (tenantId userId : Uuid) (passwordHash : String)
  | findByEmail (tenantId : Uuid) (email password : String)
  | findBySubject (identity : GoogleIdentity)
  | findByGoogleEmail (identity : GoogleIdentity)
  | findInvitationOf (identity : GoogleIdentity) (userId : Uuid) (user : User)
  | spendByGoogle (identity : GoogleIdentity) (userId : Uuid) (user : User) (id : Uuid)
  | link (identity : GoogleIdentity) (userId : Uuid) (user : User)
  | issue (tenantId userId : Uuid) (role : UserRole)
  /-- The transaction commits, and the call answers. -/
  | commit (answer : DoorAnswer)
  /-- The call throws inside its transaction. -/
  | rollback (answer : DoorAnswer)
  deriving DecidableEq, Repr

def DoorRequest.start : DoorRequest → DoorCall
  | .invite invitee => .createUser invitee
  | .accept tenantId token password salt => .findInvitation tenantId token password salt
  | .signIn tenantId email password => .findByEmail tenantId email password
  | .signInWithGoogle identity => .findBySubject identity

inductive DoorWrite where
  | user (k : Uuid) (row : User)
  | invitation (k : Uuid) (row : StaffInvitation)
  | refreshToken (k : Uuid) (row : RefreshToken)
  deriving DecidableEq, Repr

/-- The tables and the open calls. `requests` keeps what each call asked and when it began; `wrote` has
what the open transaction of a call has written and `log` what was committed, with its call. They are
kept for the statements below and read by nothing. -/
structure Doors (ι : Type) where
  clock : Int
  users : Table ι User
  invitations : Table ι StaffInvitation
  refreshTokens : Table ι RefreshToken
  requests : ι → Option (DoorRequest × Int)
  calls : ι → Option DoorCall
  wrote : ι → List DoorWrite
  log : List (ι × DoorWrite)
  answers : List (ι × DoorAnswer)

inductive DoorAction (ι : Type) where
  | tick (now : Int)
  | begin (i : ι) (request : DoorRequest)
  | advance (i : ι)
  /-- The call fails and its transaction is rolled back. -/
  | abort (i : ι)
  /-- The transaction commits, but the answer is lost. -/
  | lose (i : ι)

namespace Doors
variable {ι : Type} [DecidableEq ι]

omit [DecidableEq ι] in
def initial (seeded : List User) : Doors ι :=
  ⟨0, Table.ofList seeded, Table.empty, Table.empty, fun _ => none, fun _ => none, fun _ => [], [], []⟩

def goto (s : Doors ι) (i : ι) (call : DoorCall) : Doors ι := { s with calls := Function.update s.calls i (some call) }

def noted (s : Doors ι) (i : ι) (w : DoorWrite) : ι → List DoorWrite := Function.update s.wrote i (s.wrote i ++ [w])

def closed (s : Doors ι) (i : ι) : Doors ι :=
  { s with calls := Function.update s.calls i none, wrote := Function.update s.wrote i [] }

def committed (s : Doors ι) (i : ι) : Doors ι :=
  { s.closed i with
    users := s.users.commit i
    invitations := s.invitations.commit i
    refreshTokens := s.refreshTokens.commit i
    log := s.log ++ (s.wrote i).map (i, ·) }

def rolledBack (s : Doors ι) (i : ι) : Doors ι :=
  { s.closed i with
    users := s.users.rollback i
    invitations := s.invitations.rollback i
    refreshTokens := s.refreshTokens.rollback i }

def answered (s : Doors ι) (i : ι) (answer : DoorAnswer) : Doors ι := { s with answers := s.answers ++ [(i, answer)] }

def writeUser (s : Doors ι) (i : ι) (users : Table ι User) (k : Uuid) (row : User) (next : DoorCall) : Doors ι :=
  { s.goto i next with users := users, wrote := s.noted i (.user k row) }

def writeInvitation (s : Doors ι) (i : ι) (invitations : Table ι StaffInvitation) (k : Uuid) (row : StaffInvitation)
    (next : DoorCall) : Doors ι :=
  { s.goto i next with invitations := invitations, wrote := s.noted i (.invitation k row) }

def writeRefreshToken (s : Doors ι) (i : ι) (refreshTokens : Table ι RefreshToken) (k : Uuid) (row : RefreshToken)
    (next : DoorCall) : Doors ι :=
  { s.goto i next with refreshTokens := refreshTokens, wrote := s.noted i (.refreshToken k row) }

/-- `updateMany({ where: { id, acceptedAt: null }, data: { acceptedAt: now } })`, under the tenant's policy. -/
def spendInvitation (s : Doors ι) (i : ι) (tenantId id : Uuid) (now : Int) (next missed : DoorCall) : Option (Doors ι) :=
  (s.invitations.updateById i id (fun r => r.tenantId = tenantId && r.acceptedAt.isNone)
      fun r => { r with acceptedAt := some now }).map fun
    | some (invitations, row) => s.writeInvitation i invitations id row next
    | none => s.goto i missed

/-- A User is found for the identity; a row linked to another Google account is refused. -/
def recognised (s : Doors ι) (i : ι) (v : GoogleIdentity) (userId : Uuid) (user : User) : Doors ι :=
  if user.googleSubject.any fun subject => subject ≠ "" && subject ≠ v.subject then s.goto i (.commit refuseAuthentication)
  else s.goto i (.findInvitationOf v userId user)

def advance (lib : Library) (s : Doors ι) (i : ι) (now : Int) : DoorCall → Option (Doors ι)
  | .createUser v =>
    let row : User := ⟨v.tenantId, v.email, v.name, v.role, none, none⟩
    let same : Nat → User → Bool := fun _ r => r.tenantId = v.tenantId && r.email = v.email
    if s.users.taken i same then
      some (s.goto i (.rollback (.refused "conflict" (v.email ++ " is already a member of this tenant."))))
    else if s.users.contested i same then none
    else some (s.writeUser i (s.users.insert i row) s.users.size row (.createInvitation v s.users.size))
  | .createInvitation v userId =>
    let row : StaffInvitation :=
      ⟨v.tenantId, userId, hashToken v.token, v.invitedById, invitationExpiryFor now, none⟩
    let same : Nat → StaffInvitation → Bool := fun _ r =>
      r.userId = userId || r.tenantId = v.tenantId && r.tokenHash = hashToken v.token
    if s.invitations.taken i same then some (s.goto i (.rollback .failed))
    else if s.invitations.contested i same then none
    else some (s.writeInvitation i (s.invitations.insert i row) s.invitations.size row
      (.commit (.issued s.invitations.size userId v.token)))
  | .findInvitation tenantId token password salt =>
    match s.invitations.locate i fun r => r.tenantId = tenantId && r.tokenHash = hashToken token with
    | none => some (s.goto i (.rollback refuse))
    | some (id, invitation) =>
      match classifyInvitation invitation now with
      | .reject _ => some (s.goto i (.rollback refuse))
      | .accept => some (s.goto i (.hashPassword tenantId id invitation password salt))
  | .hashPassword tenantId id invitation password salt =>
    some (s.goto i (.spend tenantId id invitation (lib.argon2Hash password salt)))
  | .spend tenantId id invitation passwordHash =>
    s.spendInvitation i tenantId id now (.setPassword tenantId invitation.userId passwordHash) (.rollback refuse)
  | .setPassword tenantId userId passwordHash =>
    (s.users.updateById i userId (fun r => r.tenantId = tenantId)
        fun r => { r with passwordHash := some passwordHash }).map fun
      | some (users, row) => s.writeUser i users userId row (.commit .accepted)
      | none => s.goto i (.rollback .failed)
  | .findByEmail tenantId email password =>
    match s.users.locate i fun r => r.tenantId = tenantId && r.email = lib.toLowerCase email with
    | none => some (s.goto i (.commit refuseAuthentication))
    | some (userId, user) =>
      if lib.verify user.passwordHash password then some (s.goto i (.issue tenantId userId user.role))
      else some (s.goto i (.commit refuseAuthentication))
  | .findBySubject v =>
    match s.users.locate i fun r => r.tenantId = v.tenantId && r.googleSubject = some v.subject with
    | none => some (s.goto i (.findByGoogleEmail v))
    | some (userId, user) => some (s.recognised i v userId user)
  | .findByGoogleEmail v =>
    match s.users.locate i fun r => r.tenantId = v.tenantId && r.email = v.email with
    | none => some (s.goto i (.commit refuseAuthentication))
    | some (userId, user) => some (s.recognised i v userId user)
  | .findInvitationOf v userId user =>
    match s.invitations.locate i fun r => r.tenantId = v.tenantId && r.userId = userId with
    | none => some (s.goto i (.link v userId user))
    | some (id, invitation) =>
      if invitation.acceptedAt.isSome then some (s.goto i (.link v userId user))
      else match classifyInvitation invitation now with
        | .reject _ => some (s.goto i (.commit refuseAuthentication))
        | .accept => some (s.goto i (.spendByGoogle v userId user id))
  | .spendByGoogle v userId user id =>
    s.spendInvitation i v.tenantId id now (.link v userId user) (.commit refuseAuthentication)
  | .link v userId user =>
    if user.googleSubject.all (· = "") then
      let same : Nat → User → Bool := fun k r =>
        k ≠ userId && r.tenantId = v.tenantId && r.googleSubject = some v.subject
      if s.users.taken i same then some (s.goto i (.rollback .failed))
      else if s.users.contested i same then none
      else (s.users.updateById i userId (fun r => r.tenantId = v.tenantId)
          fun r => { r with googleSubject := some v.subject }).map fun
        | some (users, row) => s.writeUser i users userId row (.issue v.tenantId userId user.role)
        | none => s.goto i (.rollback .failed)
    else some (s.goto i (.issue v.tenantId userId user.role))
  | .issue tenantId userId role =>
    let seed := s.refreshTokens.size
    let row := newRow tenantId (.user userId) now seed (familyExpiryFor now) seed
    some (s.writeRefreshToken i (s.refreshTokens.insert i row) seed row (.commit (.session userId role seed)))
  | .commit answer => some ((s.committed i).answered i answer)
  | .rollback answer => some ((s.rolledBack i).answered i answer)

def step (lib : Library) (s : Doors ι) : DoorAction ι → Option (Doors ι)
  | .tick now => if s.clock ≤ now then some { s with clock := now } else none
  | .begin i request =>
    match s.requests i with
    | none => some { s.goto i request.start with requests := Function.update s.requests i (some (request, s.clock)) }
    | some _ => none
  | .advance i => (s.requests i).bind fun r => (s.calls i).bind (s.advance lib i r.2)
  | .abort i => (s.calls i).map fun _ => (s.rolledBack i).answered i .failed
  | .lose i =>
    match s.calls i with
    | some (.commit _) => some (s.committed i)
    | _ => none

end Doors
end Nivara.Auth
