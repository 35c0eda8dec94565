import Nivara.Basic
import Nivara.Transactions.Run
import Nivara.Transactions.Table
import Nivara.Scheduler.Backoff

/-! Postgres as the queue, from `scheduler/job-queue.service.ts` and the `job` table. A claim
is two steps: its statement locks and leases a batch, its commit hands the batch out. A settle
is one statement in a transaction of its own. -/
namespace Nivara.Scheduler
open Transactions

def leaseMs : Int := 5 * 60000
def claimBatch : Nat := 20
def maxClaimBatch : Nat := 1000

inductive JsNumber where
  | nan
  | negInfinity
  | posInfinity
  | finite (q : ℚ)

/-- `Math.min(Math.max(Math.trunc(limit) || CLAIM_BATCH, 1), MAX_CLAIM_BATCH)`. -/
def batchSize : JsNumber → Nat
  | .nan => claimBatch
  | .negInfinity => 1
  | .posInfinity => maxClaimBatch
  | .finite q => (min (max (if trunc q = 0 then (claimBatch : Int) else trunc q) 1) maxClaimBatch).toNat

inductive JobStatus where
  | ready | active | done | dead
  deriving DecidableEq, Repr

/-- A row of `job`; `id` is the row's number in the table. -/
structure Job (π : Type) where
  tenantId : Uuid
  kind : String
  payload : π
  runAfter : Int
  attempts : Nat
  maxAttempts : Int
  status : JobStatus
  lockedAt : Option Int
  lastError : Option String
  deriving DecidableEq, Repr

structure EnqueueInput (π : Type) where
  kind : String
  payload : π
  runAfter : Option Int
  maxAttempts : Option Int

/-- The row an enqueue inserts, with the column defaults. A `maxAttempts` of 0 is falsy. -/
def enqueued {π : Type} (tenantId : Uuid) (input : EnqueueInput π) (now : Int) : Job π where
  tenantId := tenantId
  kind := input.kind
  payload := input.payload
  runAfter := input.runAfter.getD now
  attempts := 0
  maxAttempts := (input.maxAttempts.filter (· ≠ 0)).getD 5
  status := .ready
  lockedAt := none
  lastError := none

structure ClaimedJob (π : Type) where
  id : Nat
  tenantId : Uuid
  kind : String
  payload : π
  attempts : Nat
  maxAttempts : Int
  deriving DecidableEq, Repr

namespace Job
variable {π : Type}

/-- The claim's `WHERE`: ready and due, or active with a lease older than `LEASE_MS`. -/
def isDue (now : Int) (job : Job π) : Bool :=
  (job.status = .ready ∧ job.runAfter ≤ now) ∨ (job.status = .active ∧ job.lockedAt.any (· < now - leaseMs))

/-- The claim's `SET`. -/
def lease (now : Int) (job : Job π) : Job π :=
  { job with status := .active, lockedAt := some now, attempts := job.attempts + 1 }

/-- The claim's `RETURNING`. -/
def claimed (id : Nat) (job : Job π) : ClaimedJob π :=
  ⟨id, job.tenantId, job.kind, job.payload, job.attempts, job.maxAttempts⟩

def completed (job : Job π) : Job π := { job with status := .done, lockedAt := none, lastError := none }

def retried (message : String) (runAfter : Int) (job : Job π) : Job π :=
  { job with status := .ready, lockedAt := none, lastError := some message, runAfter := runAfter }

def buried (message : String) (job : Job π) : Job π :=
  { job with status := .dead, lockedAt := none, lastError := some message }

end Job

/-- A claimed job that its drainer has not settled. `now` is the instant of the drainer's
tick, which it also settles with. -/
structure Hand (ι π : Type) where
  drainer : ι
  job : ClaimedJob π
  now : Int
  deriving DecidableEq, Repr

inductive JobEvent where
  | returned (now : Int)
  | completed
  | failed (runAfter : Int)
  | died
  deriving DecidableEq, Repr

def JobEvent.isReturned : JobEvent → Bool
  | .returned _ => true
  | _ => false

/-- The queue. `claiming` holds the batch of a claim whose transaction is open, `hands` what
the drainers have claimed and not settled; `trail` records what happened to each job. -/
structure Queue (ι π : Type) where
  table : Table ι (Job π)
  clock : Int
  claiming : ι → Option (Int × List Nat)
  hands : List (Hand ι π)
  trail : Nat → List JobEvent

inductive QueueAction (ι π : Type) where
  | tick (now : Int)
  | enqueue (tenantId : Uuid) (input : EnqueueInput π)
  /-- The claim's statement; `picks` is the order in which the database takes due rows. -/
  | claim (i : ι) (limit : JsNumber) (picks : List Nat)
  | commit (i : ι)
  | rollback (i : ι)
  /-- Settle the claim at this place of `hands`. -/
  | complete (n : Nat)
  | fail (n : Nat) (message : String) (random : ℚ)
  | crash (i : ι)

namespace Queue
variable {ι π : Type}

def initial : Queue ι π := ⟨Table.empty, 0, fun _ => none, [], fun _ => []⟩

def runAfter (q : Queue ι π) (k : Nat) : Int := ((q.table.committed k).map (·.runAfter)).getD 0

def candidates (q : Queue ι π) : List Nat :=
  (List.range q.table.size).filter fun k => (q.table.pending k).isNone ∧ (q.table.committed k).any (Job.isDue q.clock)

/-- `ORDER BY run_after LIMIT batch FOR UPDATE SKIP LOCKED`, evaluated once. Equal instants may
come in any order. -/
def takes (q : Queue ι π) (batch : Nat) (picks : List Nat) : Bool :=
  picks.Nodup ∧ (∀ k ∈ picks, k ∈ q.candidates) ∧ picks.length = min batch q.candidates.length ∧
    ∀ k ∈ picks, ∀ k' ∈ q.candidates, k' ∉ picks → q.runAfter k ≤ q.runAfter k'

/-- A settle's statement, in a transaction of its own: row `k` becomes `f` of itself and the
claim at place `n` is settled. -/
def settled (q : Queue ι π) (n k : Nat) (f : Job π → Job π) (e : JobEvent) : Queue ι π :=
  { q with
    table := q.table.amend k f
    hands := q.hands.eraseIdx n
    trail := Function.update q.trail k (q.trail k ++ [e]) }

/-- `UPDATE … WHERE id = k` waits while a claim has the row locked. -/
def settle (q : Queue ι π) (n k : Nat) (f : Job π → Job π) (e : JobEvent) : Option (Queue ι π) :=
  if (q.table.pending k).isNone then some (q.settled n k f e) else none

variable [DecidableEq ι]

def leased (q : Queue ι π) (i : ι) (picks : List Nat) : Queue ι π :=
  { q with
    table := q.table.write i picks (Job.isDue q.clock) (Job.lease q.clock)
    claiming := Function.update q.claiming i (some (q.clock, picks)) }

def batch (q : Queue ι π) (i : ι) (now : Int) (picks : List Nat) : List (Hand ι π) :=
  picks.filterMap fun k => (q.table.own i k).map fun job => ⟨i, job.claimed k, now⟩

def handedOut (q : Queue ι π) (i : ι) (now : Int) (picks : List Nat) : Queue ι π :=
  { q with
    table := q.table.commit i
    claiming := Function.update q.claiming i none
    hands := q.hands ++ q.batch i now picks
    trail := fun k => if k ∈ picks then q.trail k ++ [.returned now] else q.trail k }

def rolledBack (q : Queue ι π) (i : ι) : Queue ι π :=
  { q with table := q.table.rollback i, claiming := Function.update q.claiming i none }

def crashed (q : Queue ι π) (i : ι) : Queue ι π :=
  { q.rolledBack i with hands := q.hands.filter (·.drainer ≠ i) }

def step (q : Queue ι π) : QueueAction ι π → Option (Queue ι π)
  | .tick now => if q.clock ≤ now then some { q with clock := now } else none
  | .enqueue tenantId input => some { q with table := q.table.append (enqueued tenantId input q.clock) }
  | .claim i limit picks =>
    match q.claiming i with
    | some _ => none
    | none => if q.takes (batchSize limit) picks then some (q.leased i picks) else none
  | .commit i => (q.claiming i).map fun (now, picks) => q.handedOut i now picks
  | .rollback i => (q.claiming i).map fun _ => q.rolledBack i
  | .complete n => q.hands[n]?.bind fun h => q.settle n h.job.id Job.completed .completed
  | .fail n message random => q.hands[n]?.bind fun h =>
      if h.job.maxAttempts ≤ h.job.attempts then q.settle n h.job.id (Job.buried message) .died
      else (nextRunAfter h.job.attempts h.now random).bind fun runAfter =>
        q.settle n h.job.id (Job.retried message runAfter) (.failed runAfter)
  | .crash i => some (q.crashed i)

end Queue
end Nivara.Scheduler
