import Mathlib.Logic.Function.Basic
import Nivara.Transactions.Run
import Nivara.Idempotency.Slot

/-! The idempotency store, from `idempotency/idempotency.service.ts`, the retention sweep and
the `idempotency_record` table, for one tenant, scope and key. The unique index leaves that
key at most one row. Every statement is a step of its own: a write locks the row and shows at
its commit, and a writer waits while another holds the lock. -/
namespace Nivara.Idempotency
open Transactions

def reclaimAttempts : Nat := 2

def idempotencyRetention : Int := 24 * 60 * 60 * 1000

inductive IdempotencyStatus where
  | inProgress | completed
  deriving DecidableEq, Repr

structure IdempotencyRecord (β : Type) where
  requestHash : String
  status : IdempotencyStatus
  responseCode : Option Nat
  responseBody : Option β
  createdAt : Int
  expiresAt : Int
  deriving DecidableEq, Repr

/-- A row together with the claim call that wrote it, which is not a column. -/
structure Held (ι β : Type) extends IdempotencyRecord β where
  claimant : ι
  deriving DecidableEq, Repr

/-- What a call answers: the four outcomes of `claim()`, or that a settle or a sweep is done. -/
inductive Outcome (β : Type) where
  | fresh
  | replay (response : Option (IdempotentResponse β))
  | inFlight
  | mismatch
  | settled
  deriving DecidableEq, Repr

inductive Operation (β : Type) where
  | claim (requestHash : Option String)
  | complete (response : Option (IdempotentResponse β))
  | release
  | sweep (now : Int)

/-- Where a call stands: the statement it executes next. `now` is `CURRENT_TIMESTAMP`, the
start of the transaction. -/
inductive Call (β : Type) where
  /-- `attemptClaim` is entered; its first transaction begins. -/
  | claim (requestHash : Option String) (remaining : Nat)
  | insert (requestHash : Option String) (remaining : Nat) (now : Int)
  /-- The insert hit the unique index; the second transaction begins. -/
  | contend (requestHash : Option String) (remaining : Nat)
  | reclaim (requestHash : Option String) (remaining : Nat) (now : Int)
  | read (requestHash : Option String) (remaining : Nat)
  | complete (response : Option (IdempotentResponse β))
  | release
  | sweep (now : Int)
  /-- The last statement has run; the transaction commits and the call answers. -/
  | commit (outcome : Outcome β)
  deriving DecidableEq, Repr

def Operation.start {β : Type} : Operation β → Call β
  | .claim requestHash => .claim requestHash reclaimAttempts
  | .complete response => .complete response
  | .release => .release
  | .sweep now => .sweep now

section Records
variable {ι β : Type}

def claimed (claimant : ι) (requestHash : Option String) (now : Int) : Held ι β where
  requestHash := requestHash.getD ""
  status := .inProgress
  responseCode := none
  responseBody := none
  createdAt := now
  expiresAt := now + idempotencyRetention
  claimant := claimant

def Held.completedWith (row : Held ι β) (response : Option (IdempotentResponse β)) : Held ι β :=
  { row with
    status := .completed
    responseCode := response.map (·.code)
    responseBody := response.bind (·.body) }

def IdempotencyRecord.response (row : IdempotencyRecord β) : Option (IdempotentResponse β) :=
  row.responseCode.map fun code => ⟨code, row.responseBody⟩

def outcomeOf (requestHash : Option String) (held : IdempotencyRecord β) : Outcome β :=
  if requestHash.any (· ≠ held.requestHash) then .mismatch
  else match held.status with
    | .inProgress => .inFlight
    | .completed => .replay held.response

/-- A write that is not committed yet, with the version it locked. -/
inductive Write (ι β : Type) where
  | insert (row : Held ι β)
  | reclaim (old row : Held ι β)
  | complete (old : Held ι β) (response : Option (IdempotentResponse β))
  | release (old : Held ι β)
  | sweep (old : Held ι β) (now : Int)
  deriving DecidableEq, Repr

def Write.row : Write ι β → Option (Held ι β)
  | .insert row => some row
  | .reclaim _ row => some row
  | .complete old response => some (old.completedWith response)
  | .release _ => none
  | .sweep _ _ => none

def Write.events (caller : ι) : Write ι β → List (Event ι β)
  | .insert row => [.fresh row.claimant row.requestHash row.expiresAt]
  | .reclaim old row =>
    [.lapsed old.claimant row.createdAt, .fresh row.claimant row.requestHash row.expiresAt]
  | .complete old response => [.completed caller old.claimant response]
  | .release old => [.released caller old.claimant]
  | .sweep old now => [.swept old.claimant now]

def readEvent (caller : ι) (requestHash : Option String) (held : Held ι β) : Event ι β :=
  match outcomeOf requestHash held.toIdempotencyRecord with
  | .mismatch => .mismatched caller held.claimant (requestHash.getD "")
  | .replay response => .replayed caller held.claimant response
  | _ => .deferred caller

end Records

/-- The store: the committed row, the write that holds its lock, and the open calls. `rounds`
counts the times a call entered `attemptClaim`; `history` and `answers` are kept for the
statements about the store and read by nothing. -/
structure Store (ι β : Type) where
  clock : Int
  record : Option (Held ι β)
  pending : Option (ι × Write ι β)
  calls : ι → Option (Call β)
  rounds : ι → Nat
  history : List (Event ι β)
  answers : List (ι × Outcome β)

inductive Action (ι β : Type) where
  | tick (now : Int)
  | begin (c : ι) (op : Operation β)
  | advance (c : ι)
  /-- The call fails and its transaction is rolled back. -/
  | abort (c : ι)
  /-- The transaction commits, but the call fails all the same: the answer is lost. -/
  | lose (c : ι)

namespace Store
variable {ι β : Type}

def initial : Store ι β := ⟨0, none, none, fun _ => none, fun _ => 0, [], []⟩

variable [DecidableEq ι]

def goto (s : Store ι β) (c : ι) (call : Call β) : Store ι β :=
  { s with calls := Function.update s.calls c (some call) }

def lock (s : Store ι β) (c : ι) (w : Write ι β) (outcome : Outcome β) : Store ι β :=
  { s.goto c (.commit outcome) with pending := some (c, w) }

def commit (s : Store ι β) (c : ι) : Store ι β :=
  match s.pending with
  | some (j, w) =>
    if j = c then
      { s with
        record := w.row
        pending := none
        calls := Function.update s.calls c none
        history := s.history ++ w.events c }
    else { s with calls := Function.update s.calls c none }
  | none => { s with calls := Function.update s.calls c none }

theorem commit_holder {s : Store ι β} {c : ι} {w : Write ι β} (h : s.pending = some (c, w)) :
    s.commit c = { s with
      record := w.row
      pending := none
      calls := Function.update s.calls c none
      history := s.history ++ w.events c } := by
  simp [commit, h]

theorem commit_other {s : Store ι β} {c : ι} (h : ∀ w, s.pending ≠ some (c, w)) :
    s.commit c = { s with calls := Function.update s.calls c none } := by
  cases hp : s.pending with
  | none => simp [commit, hp]
  | some p =>
    have hc : p.1 ≠ c := by
      rintro rfl
      exact h p.2 hp
    simp [commit, hp, hc]

@[simp] theorem commit_answers (s : Store ι β) (c : ι) : (s.commit c).answers = s.answers := by
  by_cases h : ∃ w, s.pending = some (c, w)
  · obtain ⟨w,h⟩ := h
    rw [commit_holder h]
  · rw [commit_other fun w hw => h ⟨w,hw⟩]

def tryLock (s : Store ι β) (c : ι) (w : Write ι β) (outcome : Outcome β) : Option (Store ι β) :=
  match s.pending with
  | none => some (s.lock c w outcome)
  | some _ => none

def settle (s : Store ι β) (c : ι) (p : Held ι β → Prop) [DecidablePred p] (w : Held ι β → Write ι β) :
    Option (Store ι β) :=
  match s.record with
  | none => some (s.goto c (.commit .settled))
  | some old => if p old then s.tryLock c (w old) .settled else some (s.goto c (.commit .settled))

def advance (s : Store ι β) (c : ι) : Call β → Option (Store ι β)
  | .claim requestHash remaining =>
    some { s.goto c (.insert requestHash remaining s.clock) with
      rounds := Function.update s.rounds c (s.rounds c + 1) }
  | .insert requestHash remaining now =>
    match s.record with
    | none => s.tryLock c (.insert (claimed c requestHash now)) .fresh
    | some _ => if s.pending.isSome then none else some (s.goto c (.contend requestHash remaining))
  | .contend requestHash remaining => some (s.goto c (.reclaim requestHash remaining s.clock))
  | .reclaim requestHash remaining now =>
    match s.record with
    | none => some (s.goto c (.read requestHash remaining))
    | some old =>
      if old.expiresAt ≤ now then s.tryLock c (.reclaim old (claimed c requestHash now)) .fresh
      else some (s.goto c (.read requestHash remaining))
  | .read requestHash remaining =>
    match s.record with
    | none =>
      match remaining with
      | remaining + 1 => some (s.goto c (.claim requestHash remaining))
      | 0 => some { s.goto c (.commit .inFlight) with history := s.history ++ [.deferred c] }
    | some held =>
      some { s.goto c (.commit (outcomeOf requestHash held.toIdempotencyRecord)) with
        history := s.history ++ [readEvent c requestHash held] }
  | .complete response => s.settle c (·.status = .inProgress) (.complete · response)
  | .release => s.settle c (·.status = .inProgress) .release
  | .sweep now => s.settle c (·.expiresAt ≤ now) (.sweep · now)
  | .commit outcome => some { s.commit c with answers := s.answers ++ [(c, outcome)] }

def rollback (s : Store ι β) (c : ι) : Store ι β :=
  { s with
    calls := Function.update s.calls c none
    pending := s.pending.filter (·.1 ≠ c) }

def step (s : Store ι β) : Action ι β → Option (Store ι β)
  | .tick now => if s.clock ≤ now then some { s with clock := now } else none
  | .begin c op =>
    match s.calls c with
    | none => some { s.goto c op.start with rounds := Function.update s.rounds c 0 }
    | some _ => none
  | .advance c => (s.calls c).bind (s.advance c)
  | .abort c => (s.calls c).map fun _ => s.rollback c
  | .lose c =>
    match s.calls c with
    | some (.commit _) => some (s.commit c)
    | _ => none

end Store
end Nivara.Idempotency
