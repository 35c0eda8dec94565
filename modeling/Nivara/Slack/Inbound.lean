import Nivara.Idempotency.Interceptor

/-! The front half of the Slack adapter, from `slack/slack-inbound.service.ts`: any number of
deliveries of one event of a known workspace, each from the claim of its `event_id` on. What comes
before the claim writes nothing. Any call on the store may fail, in which case it commits nothing,
and a delivery may die between any two steps. -/
namespace Nivara.Slack
open Transactions Idempotency

inductive Accepting where
  | claiming
  /-- The claim is fresh; the job is still to be committed. -/
  | queueing
  | completing
  | releasing
  | acking
  | ended
  deriving DecidableEq, Repr

def Accepting.call (i : Nat) : Accepting → Option CallId
  | .claiming => some (.claim i)
  | .completing => some (.complete i)
  | .releasing => some (.release i)
  | _ => none

/-- The deliveries are numbered as they arrive. `jobs` lists the committed `inbound.event` jobs: by
which delivery, and how many retention windows of the record had closed by then. `acks` lists the
deliveries that were answered `ack`. -/
structure Intake where
  store : Store CallId Unit
  deliveries : List Accepting
  jobs : List (Nat × Nat)
  acks : List Nat

inductive IntakeAction where
  | tick (now : Int)
  | arrive
  | sweep (n : Nat) (now : Int)
  | advance (c : CallId)
  /-- The call fails, and its transaction is rolled back. -/
  | fail (c : CallId)
  /-- The transaction of `enqueue` commits. -/
  | enqueue (i : Nat)
  /-- The transaction of `enqueue` fails. -/
  | throw (i : Nat)
  | answer (i : Nat)
  | crash (i : Nat)

namespace Intake

def initial : Intake := ⟨Store.initial, [], [], []⟩

def enter (p : Intake) (i : Nat) (stage : Accepting) : Intake := { p with deliveries := p.deliveries.set i stage }

def returned (p : Intake) : CallId → Outcome Unit → Intake
  | .claim i, .fresh => p.enter i .queueing
  | .claim i, _ => p.enter i .acking
  | .complete i, _ => p.enter i .acking
  | .release i, _ => p.enter i .ended
  | .sweep _, _ => p

/-- A call on the store has failed: `accept` throws. Only a failed `enqueue` gives the key back. -/
def failed (p : Intake) : CallId → Intake
  | .claim i => p.enter i .ended
  | .complete i => p.enter i .ended
  | .release i => p.enter i .ended
  | .sweep _ => p

def step (p : Intake) : IntakeAction → Option Intake
  | .tick now => (p.store.step (.tick now)).map fun store => { p with store := store }
  | .arrive => (p.store.step (.begin (.claim p.deliveries.length) (.claim none))).map fun store =>
      { p with store := store, deliveries := p.deliveries ++ [.claiming] }
  | .sweep n now => (p.store.step (.begin (.sweep n) (.sweep now))).map fun store => { p with store := store }
  | .advance c => (p.store.step (.advance c)).map fun store =>
      match p.store.calls c with
      | some (.commit o) => { p with store := store }.returned c o
      | _ => { p with store := store }
  | .fail c => (p.store.step (.abort c)).map fun store => { p with store := store }.failed c
  | .enqueue i =>
    match p.deliveries[i]? with
    | some .queueing => (p.store.step (.begin (.complete i) (.complete none))).map fun store =>
        { p.enter i .completing with
          store := store
          jobs := p.jobs ++ [(i, windowsClosed p.store.history)] }
    | _ => none
  | .throw i =>
    match p.deliveries[i]? with
    | some .queueing => (p.store.step (.begin (.release i) .release)).map fun store =>
        { p.enter i .releasing with store := store }
    | _ => none
  | .answer i =>
    match p.deliveries[i]? with
    | some .acking => some { p.enter i .ended with acks := p.acks ++ [i] }
    | _ => none
  | .crash i =>
    match p.deliveries[i]? with
    | none => none
    | some stage =>
      match stage.call i with
      | some c => (p.store.step (.abort c)).map fun store => { p.enter i .ended with store := store }
      | none => some (p.enter i .ended)

end Intake
end Nivara.Slack
