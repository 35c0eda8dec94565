import Nivara.Transactions.Run
import Nivara.Transactions.Table

/-! Transactions as programs over one table, interleaved statement by statement.
A `SELECT` or an `INSERT` is one step. An `UPDATE` is two: it picks its rows from the
snapshot of its statement, and it writes once it holds their locks. -/
namespace Nivara.Transactions

/-- What is left of a transaction. `U` names the `UPDATE` statements it may issue. An `INSERT`
names the random values of its row by a seed that no earlier `INSERT` was given. -/
inductive Prog (U R α : Type) where
  | done (a : α)
  | find (p : R → Bool) (next : Option R → Prog U R α)
  | update (u : U) (next : Nat → Prog U R α)
  | insert (row : Nat → R) (next : Nat → Prog U R α)

namespace Prog
variable {U R α β : Type}

def bind : Prog U R α → (α → Prog U R β) → Prog U R β
  | .done a, f => f a
  | .find p next, f => .find p fun r => (next r).bind f
  | .update u next, f => .update u fun n => (next n).bind f
  | .insert row next, f => .insert row fun n => (next n).bind f

instance : Monad (Prog U R) where
  pure := .done
  bind := Prog.bind

/-- `SELECT … LIMIT 1`. -/
def findFirst (p : R → Bool) : Prog U R (Option R) := .find p .done

/-- `UPDATE`; the answer is the number of rows written. -/
def updateMany (u : U) : Prog U R Nat := .update u .done

/-- `INSERT`; the answer is the seed of the row's random values. -/
def create (row : Nat → R) : Prog U R Nat := .insert row .done

@[simp] theorem pure_def (a : α) : (pure a : Prog U R α) = .done a := rfl
@[simp] theorem bind_def (x : Prog U R α) (f : α → Prog U R β) : x >>= f = x.bind f := rfl
@[simp] theorem done_bind (a : α) (f : α → Prog U R β) : (Prog.done a).bind f = f a := rfl
@[simp] theorem find_bind (p : R → Bool) (next : Option R → Prog U R α) (f : α → Prog U R β) :
    (Prog.find p next).bind f = .find p fun r => (next r).bind f := rfl
@[simp] theorem update_bind (u : U) (next : Nat → Prog U R α) (f : α → Prog U R β) :
    (Prog.update u next).bind f = .update u fun n => (next n).bind f := rfl
@[simp] theorem insert_bind (row : Nat → R) (next : Nat → Prog U R α) (f : α → Prog U R β) :
    (Prog.insert row next).bind f = .insert row fun n => (next n).bind f := rfl

end Prog

/-- The `WHERE` and the `SET` of every `UPDATE` statement. -/
structure Updates (U R : Type) where
  targets : U → R → Bool
  apply : U → R → R

/-- The shared state. `waiting` holds the statement a transaction has started and the rows
it picked; `applied` the statements of an open transaction; `log` those of the committed
ones; `answers` what the committed transactions returned, in commit order. -/
structure Db (ι U R α : Type) where
  table : Table ι R
  supply : Nat
  waiting : ι → Option (U × List Nat)
  applied : ι → List U
  log : List U
  answers : List α

namespace Db
variable {ι U R α : Type}

def empty : Db ι U R α := ⟨Table.empty, 0, fun _ => none, fun _ => [], [], []⟩

def insert (d : Db ι U R α) (i : ι) (row : Nat → R) : Db ι U R α :=
  { d with table := d.table.insert i (row d.supply), supply := d.supply + 1 }

variable [DecidableEq ι]

def snapshot (V : Updates U R) (d : Db ι U R α) (i : ι) (u : U) : Db ι U R α :=
  { d with waiting := Function.update d.waiting i (some (u, d.table.matching i (V.targets u))) }

def write (V : Updates U R) (d : Db ι U R α) (i : ι) (u : U) (ks : List Nat) : Db ι U R α :=
  { d with
    table := d.table.write i ks (V.targets u) (V.apply u)
    waiting := Function.update d.waiting i none
    applied := Function.update d.applied i (d.applied i ++ [u]) }

def commit (d : Db ι U R α) (i : ι) (a : α) : Db ι U R α :=
  { d with
    table := d.table.commit i
    applied := Function.update d.applied i []
    log := d.log ++ d.applied i
    answers := d.answers ++ [a] }

def rollback (d : Db ι U R α) (i : ι) : Db ι U R α :=
  { d with
    table := d.table.rollback i
    waiting := Function.update d.waiting i none
    applied := Function.update d.applied i [] }

def Idle (i : ι) (d : Db ι U R α) : Prop :=
  (∀ k, d.table.own i k = none) ∧ d.waiting i = none ∧ d.applied i = []

end Db

structure System (ι U R α : Type) where
  db : Db ι U R α
  running : ι → Option (Prog U R α)

def System.initial {ι U R α : Type} : System ι U R α := ⟨Db.empty, fun _ => none⟩

/-- A transaction begins, executes its next statement, or fails and is rolled back. -/
inductive Action (ι Req : Type) where
  | begin (i : ι) (req : Req)
  | advance (i : ι)
  | abort (i : ι)

variable {ι U R α Req : Type} [DecidableEq ι]

def advance (V : Updates U R) (s : System ι U R α) (i : ι) : Prog U R α → Option (System ι U R α)
  | .done a => some ⟨s.db.commit i a, Function.update s.running i none⟩
  | .find p next => some ⟨s.db, Function.update s.running i (some (next (s.db.table.find i p)))⟩
  | .insert row next => some ⟨s.db.insert i row, Function.update s.running i (some (next s.db.supply))⟩
  | .update u next =>
    match s.db.waiting i with
    | none => some ⟨s.db.snapshot V i u, s.running⟩
    | some (_, ks) =>
      if s.db.table.free i ks then
        some ⟨s.db.write V i u ks,
          Function.update s.running i (some (next (s.db.table.written i ks (V.targets u))))⟩
      else none

/-- The interleaving semantics: any open transaction may take the next step. -/
def step (V : Updates U R) (prog : Req → Prog U R α) (s : System ι U R α) :
    Action ι Req → Option (System ι U R α)
  | .begin i req =>
    match s.running i with
    | none => some ⟨s.db, Function.update s.running i (some (prog req))⟩
    | some _ => none
  | .advance i => (s.running i).bind (advance V s i)
  | .abort i =>
    (s.running i).map fun _ => ⟨s.db.rollback i, Function.update s.running i none⟩

end Nivara.Transactions
