import Nivara.Idempotency.Store

/-! `Idempotency-Key` as a pipeline, from `idempotency/idempotency.interceptor.ts`: any number
of requests on one key, each with its claim, its handler and its settle, over the store. Any
call on the store may fail, and a request may die at any point. -/
namespace Nivara.Idempotency
open Transactions

/-- The calls the requests and the retention sweep make on the store. -/
inductive CallId where
  | claim (i : Nat)
  | complete (i : Nat)
  | release (i : Nat)
  | sweep (n : Nat)
  deriving DecidableEq, Repr

inductive Stage (β : Type) where
  | claiming
  | handling
  | completing (response : IdempotentResponse β)
  | releasing
  | finished
  deriving DecidableEq, Repr

def Stage.call {β : Type} (i : Nat) : Stage β → Option CallId
  | .claiming => some (.claim i)
  | .completing _ => some (.complete i)
  | .releasing => some (.release i)
  | _ => none

inductive Reply (β : Type) where
  /-- The stored answer, with the header `Idempotency-Replayed`. -/
  | replayed (code : Nat) (body : Option β)
  | refused (code message : String)
  | answered (response : IdempotentResponse β)
  /-- The error of the claim, of the handler or of `complete()`. -/
  | failed
  deriving DecidableEq, Repr

/-- `effects` lists the requests whose handler returned, with the number of retention windows
of the key that had closed by then. -/
structure Pipeline (β : Type) where
  store : Store CallId β
  requests : Nat → Option (Stage β)
  effects : List (Nat × Nat)
  replies : List (Nat × Reply β)

def Event.isLapse {ι β : Type} : Event ι β → Bool
  | .lapsed _ _ => true
  | .swept _ _ => true
  | _ => false

def windowsClosed {ι β : Type} (history : List (Event ι β)) : Nat := history.countP Event.isLapse

inductive PipelineAction (β : Type) where
  | tick (now : Int)
  | arrive (i : Nat) (requestHash : String)
  | sweep (n : Nat) (now : Int)
  | advance (c : CallId)
  /-- The call fails before its transaction commits. -/
  | fail (c : CallId)
  /-- The call fails although its transaction has committed. -/
  | lose (c : CallId)
  /-- The handler returns: its effect is committed. -/
  | succeed (i : Nat) (response : IdempotentResponse β)
  /-- The handler throws: its transaction is rolled back. -/
  | throw (i : Nat)
  | crash (i : Nat)

namespace Pipeline
variable {β : Type}

def initial : Pipeline β := ⟨Store.initial, fun _ => none, [], []⟩

def enter (p : Pipeline β) (i : Nat) (stage : Stage β) : Pipeline β :=
  { p with requests := Function.update p.requests i (some stage) }

def reply (p : Pipeline β) (i : Nat) (r : Reply β) : Pipeline β :=
  { p.enter i .finished with replies := p.replies ++ [(i, r)] }

/-- `replay`: the stored status and body, 200 and null where there is none. -/
def replay (stored : Option (IdempotentResponse β)) : Reply β :=
  .replayed ((stored.map (·.code)).getD 200) (stored.bind (·.body))

def claimed (p : Pipeline β) (i : Nat) : Outcome β → Pipeline β
  | .mismatch => p.reply i (.refused "idempotency_key_reused"
      "This Idempotency-Key was already used for a request with a different body. Use a fresh key for a different request.")
  | .inFlight => p.reply i (.refused "idempotency_in_flight"
      "An earlier request with this Idempotency-Key is still running. Retry shortly; its effect will happen only once.")
  | .replay stored => p.reply i (replay stored)
  | .fresh => p.enter i .handling
  | .settled => p.enter i .finished

def returned (p : Pipeline β) : CallId → Outcome β → Pipeline β
  | .claim i, o => p.claimed i o
  | .complete i, _ =>
    match p.requests i with
    | some (.completing response) => p.reply i (.answered response)
    | _ => p
  | .release i, _ => p.enter i .finished
  | .sweep _, _ => p

/-- A call on the store has failed. A failed `complete()` reaches the same `tap` as a handler
that threw, and releases the key. -/
def failed (p : Pipeline β) : CallId → Option (Pipeline β)
  | .claim i => some (p.reply i .failed)
  | .complete i => (p.store.step (.begin (.release i) .release)).map fun store =>
      { p.enter i .releasing with store := store, replies := p.replies ++ [(i, .failed)] }
  | .release i => some (p.enter i .finished)
  | .sweep _ => some p

def step (p : Pipeline β) : PipelineAction β → Option (Pipeline β)
  | .tick now => (p.store.step (.tick now)).map fun store => { p with store := store }
  | .arrive i requestHash =>
    match p.requests i with
    | none => (p.store.step (.begin (.claim i) (.claim (some requestHash)))).map fun store =>
        { p.enter i .claiming with store := store }
    | some _ => none
  | .sweep n now => (p.store.step (.begin (.sweep n) (.sweep now))).map fun store => { p with store := store }
  | .advance c => (p.store.step (.advance c)).map fun store =>
      match p.store.calls c with
      | some (.commit o) => { p with store := store }.returned c o
      | _ => { p with store := store }
  | .fail c => (p.store.step (.abort c)).bind fun store => { p with store := store }.failed c
  | .lose c => (p.store.step (.lose c)).bind fun store => { p with store := store }.failed c
  | .succeed i response =>
    match p.requests i with
    | some .handling => (p.store.step (.begin (.complete i) (.complete (some response)))).map fun store =>
        { p.enter i (.completing response) with
          store := store
          effects := p.effects ++ [(i, windowsClosed p.store.history)] }
    | _ => none
  | .throw i =>
    match p.requests i with
    | some .handling => (p.store.step (.begin (.release i) .release)).map fun store =>
        { p.enter i .releasing with store := store, replies := p.replies ++ [(i, .failed)] }
    | _ => none
  | .crash i =>
    match p.requests i with
    | none => none
    | some stage =>
      match stage.call i with
      | some c => (p.store.step (.abort c)).map fun store => { p.enter i .finished with store := store }
      | none => some (p.enter i .finished)

end Pipeline
end Nivara.Idempotency
