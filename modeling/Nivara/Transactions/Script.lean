import Mathlib.Logic.Function.Basic
import Nivara.Transactions.Run

/-! Transactions as scripts over an arbitrary database engine, interleaved by the steps of
their statements. A refused statement aborts its transaction: what it wrote is gone, every
later statement is refused, and its commit is a rollback. -/
namespace Nivara.Transactions

/-- The statements of a database, what each answers, and why one may be refused. -/
structure Language where
  Stmt : Type
  Ans : Stmt → Type
  Refusal : Type

/-- What is left of a transaction. It sees the refusal of a statement and may go on from it. -/
inductive Script (L : Language) (ε α : Type) where
  | done (a : α)
  | fail (e : ε)
  | exec (q : L.Stmt) (next : Except L.Refusal (L.Ans q) → Script L ε α)

namespace Script
variable {L : Language} {ε α β : Type}

def bind : Script L ε α → (α → Script L ε β) → Script L ε β
  | .done a, f => f a
  | .fail e, _ => .fail e
  | .exec q next, f => .exec q fun r => (next r).bind f

instance : Monad (Script L ε) where
  pure := .done
  bind := Script.bind

/-- A statement whose refusal is thrown as an error. -/
def query (q : L.Stmt) (thrown : L.Refusal → ε) : Script L ε (L.Ans q) :=
  .exec q fun
    | .ok a => .done a
    | .error r => .fail (thrown r)

/-- `.catch(…)` with a handler that rethrows. -/
def rethrow (f : ε → ε) : Script L ε α → Script L ε α
  | .done a => .done a
  | .fail e => .fail (f e)
  | .exec q next => .exec q fun r => (next r).rethrow f

def Only (p : L.Stmt → Prop) : Script L ε α → Prop
  | .done _ => True
  | .fail _ => True
  | .exec q next => p q ∧ ∀ r, (next r).Only p

@[simp] theorem pure_def (a : α) : (pure a : Script L ε α) = .done a := rfl
@[simp] theorem bind_def (x : Script L ε α) (f : α → Script L ε β) : x >>= f = x.bind f := rfl
@[simp] theorem done_bind (a : α) (f : α → Script L ε β) : (Script.done a : Script L ε α).bind f = f a := rfl
@[simp] theorem fail_bind (e : ε) (f : α → Script L ε β) : (Script.fail e : Script L ε α).bind f = .fail e := rfl
@[simp] theorem exec_bind (q : L.Stmt) (next : Except L.Refusal (L.Ans q) → Script L ε α) (f : α → Script L ε β) :
    (Script.exec q next).bind f = .exec q fun r => (next r).bind f := rfl

theorem bind_assoc {γ : Type} (x : Script L ε α) (f : α → Script L ε β) (g : β → Script L ε γ) :
    (x.bind f).bind g = x.bind fun a => (f a).bind g := by
  induction x with
  | done a => rfl
  | fail e => rfl
  | exec q next ih => exact congrArg _ (funext fun r => ih r)

theorem bind_done (x : Script L ε α) : x.bind .done = x := by
  induction x with
  | done a => rfl
  | fail e => rfl
  | exec q next ih => exact congrArg _ (funext fun r => ih r)

theorem rethrow_id (x : Script L ε α) : x.rethrow id = x := by
  induction x with
  | done a => rfl
  | fail e => rfl
  | exec q next ih => exact congrArg _ (funext fun r => ih r)

end Script

/-- What a statement does when it is given its turn: it waits for a lock, it is refused, it
does a part of its work, or it answers. -/
inductive Turn (L : Language) (D K : Type) (q : L.Stmt) where
  | wait
  | refuse (r : L.Refusal)
  | more (d : D) (k : K)
  | answer (d : D) (a : L.Ans q)

/-- A database: how a statement of transaction `i` starts and goes on under a context `C`, and
how the transaction ends. A statement that has started keeps a cursor. -/
structure Engine (L : Language) (ι C D : Type) where
  Cursor : Type
  start : D → ι → C → L.Stmt → Cursor
  resume : D → ι → C → (q : L.Stmt) → Cursor → Turn L D Cursor q
  commit : D → ι → D
  rollback : D → ι → D
  /-- The refusal every statement of an aborted transaction gets. -/
  aborted : L.Refusal

/-- The requests a server takes: the context a request's transaction is armed with, and its script. -/
structure Service (L : Language) (ε α C D Req : Type) where
  context : D → Req → C
  script : Req → Script L ε α

structure Session (L : Language) (ε α C K Req : Type) where
  req : Req
  ctx : C
  script : Script L ε α
  cursor : Option K
  aborted : Bool

/-- The database with the open transactions; `answers` lists what the committed ones returned. -/
structure Server (L : Language) (ε α ι C D K Req : Type) where
  db : D
  sessions : ι → Option (Session L ε α C K Req)
  answers : List (Req × α)

/-- A transaction begins, takes its next step, or fails and is rolled back; or the world moves on. -/
inductive Move (ι Req W : Type) where
  | begin (i : ι) (req : Req)
  | advance (i : ι)
  | abort (i : ι)
  | world (w : W)

namespace Server
variable {L : Language} {ε α ι C D K Req W : Type}

def initial (d : D) : Server L ε α ι C D K Req := ⟨d, fun _ => none, []⟩

variable [DecidableEq ι]

def put (s : Server L ε α ι C D K Req) (d : D) (i : ι) (x : Option (Session L ε α C K Req)) :
    Server L ε α ι C D K Req :=
  { s with db := d, sessions := Function.update s.sessions i x }

@[simp] theorem put_db (s : Server L ε α ι C D K Req) (d : D) (i : ι) (x : Option (Session L ε α C K Req)) :
    (s.put d i x).db = d := rfl

@[simp] theorem put_answers (s : Server L ε α ι C D K Req) (d : D) (i : ι) (x : Option (Session L ε α C K Req)) :
    (s.put d i x).answers = s.answers := rfl

@[simp] theorem put_self (s : Server L ε α ι C D K Req) (d : D) (i : ι) (x : Option (Session L ε α C K Req)) :
    (s.put d i x).sessions i = x := Function.update_self ..

theorem put_other (s : Server L ε α ι C D K Req) (d : D) {i j : ι} (x : Option (Session L ε α C K Req)) (h : j ≠ i) :
    (s.put d i x).sessions j = s.sessions j := Function.update_of_ne h ..

def advance (E : Engine L ι C D) (s : Server L ε α ι C D E.Cursor Req) (i : ι) (x : Session L ε α C E.Cursor Req) :
    Option (Server L ε α ι C D E.Cursor Req) :=
  match x.script with
  | .done a =>
    if x.aborted then some (s.put (E.rollback s.db i) i none)
    else some { s.put (E.commit s.db i) i none with answers := s.answers ++ [(x.req, a)] }
  | .fail _ => some (s.put (E.rollback s.db i) i none)
  | .exec q next =>
    if x.aborted then some (s.put s.db i (some { x with script := next (.error E.aborted) }))
    else match x.cursor with
      | none => some (s.put s.db i (some { x with cursor := some (E.start s.db i x.ctx q) }))
      | some k =>
        match E.resume s.db i x.ctx q k with
        | .wait => none
        | .refuse r => some (s.put (E.rollback s.db i) i
            (some { x with script := next (.error r), cursor := none, aborted := true }))
        | .more d k => some (s.put d i (some { x with cursor := some k }))
        | .answer d a => some (s.put d i (some { x with script := next (.ok a), cursor := none }))

/-- The interleaving semantics: any open transaction may take the next step. -/
def step (E : Engine L ι C D) (S : Service L ε α C D Req) (world : D → W → Option D)
    (s : Server L ε α ι C D E.Cursor Req) : Move ι Req W → Option (Server L ε α ι C D E.Cursor Req)
  | .begin i req =>
    match s.sessions i with
    | none => some (s.put s.db i (some ⟨req, S.context s.db req, S.script req, none, false⟩))
    | some _ => none
  | .advance i => (s.sessions i).bind (s.advance E i)
  | .abort i => (s.sessions i).map fun _ => s.put (E.rollback s.db i) i none
  | .world w => (world s.db w).map fun d => { s with db := d }

/-- A refused statement rolls its transaction back. -/
theorem step_of_refuse {E : Engine L ι C D} {S : Service L ε α C D Req} {world : D → W → Option D}
    {s : Server L ε α ι C D E.Cursor Req} {i : ι} {x : Session L ε α C E.Cursor Req} {q : L.Stmt}
    {next : Except L.Refusal (L.Ans q) → Script L ε α} {k : E.Cursor} {r : L.Refusal} (hx : s.sessions i = some x)
    (hs : x.script = .exec q next) (hl : x.aborted = false) (hc : x.cursor = some k)
    (ht : E.resume s.db i x.ctx q k = .refuse r) :
    s.step E S world (.advance i) = some (s.put (E.rollback s.db i) i
      (some { x with script := next (.error r), cursor := none, aborted := true })) := by
  simp [step, hx, advance, hs, hl, hc, ht]

inductive Took (E : Engine L ι C D) (S : Service L ε α C D Req) (world : D → W → Option D)
    (s : Server L ε α ι C D E.Cursor Req) : Move ι Req W → Server L ε α ι C D E.Cursor Req → Prop
  | began {i : ι} {req : Req} (idle : s.sessions i = none) :
      Took E S world s (.begin i req) (s.put s.db i (some ⟨req, S.context s.db req, S.script req, none, false⟩))
  | committed {i : ι} {x : Session L ε α C E.Cursor Req} {a : α} (session : s.sessions i = some x)
      (script : x.script = .done a) (live : x.aborted = false) :
      Took E S world s (.advance i) { s.put (E.commit s.db i) i none with answers := s.answers ++ [(x.req, a)] }
  | closed {i : ι} {x : Session L ε α C E.Cursor Req} {m : Move ι Req W} (session : s.sessions i = some x) :
      Took E S world s m (s.put (E.rollback s.db i) i none)
  | skipped {i : ι} {x : Session L ε α C E.Cursor Req} {q : L.Stmt} {next : Except L.Refusal (L.Ans q) → Script L ε α}
      (session : s.sessions i = some x) (script : x.script = .exec q next) (dead : x.aborted = true) :
      Took E S world s (.advance i) (s.put s.db i (some { x with script := next (.error E.aborted) }))
  | started {i : ι} {x : Session L ε α C E.Cursor Req} {q : L.Stmt} {next : Except L.Refusal (L.Ans q) → Script L ε α}
      (session : s.sessions i = some x) (script : x.script = .exec q next) (live : x.aborted = false)
      (cursor : x.cursor = none) :
      Took E S world s (.advance i) (s.put s.db i (some { x with cursor := some (E.start s.db i x.ctx q) }))
  | refused {i : ι} {x : Session L ε α C E.Cursor Req} {q : L.Stmt} {next : Except L.Refusal (L.Ans q) → Script L ε α}
      {k : E.Cursor} {r : L.Refusal} (session : s.sessions i = some x) (script : x.script = .exec q next)
      (live : x.aborted = false) (cursor : x.cursor = some k) (turn : E.resume s.db i x.ctx q k = .refuse r) :
      Took E S world s (.advance i) (s.put (E.rollback s.db i) i
        (some { x with script := next (.error r), cursor := none, aborted := true }))
  | went {i : ι} {x : Session L ε α C E.Cursor Req} {q : L.Stmt} {next : Except L.Refusal (L.Ans q) → Script L ε α}
      {k k' : E.Cursor} {d : D} (session : s.sessions i = some x) (script : x.script = .exec q next)
      (live : x.aborted = false) (cursor : x.cursor = some k) (turn : E.resume s.db i x.ctx q k = .more d k') :
      Took E S world s (.advance i) (s.put d i (some { x with cursor := some k' }))
  | answered {i : ι} {x : Session L ε α C E.Cursor Req} {q : L.Stmt} {next : Except L.Refusal (L.Ans q) → Script L ε α}
      {k : E.Cursor} {d : D} {a : L.Ans q} (session : s.sessions i = some x) (script : x.script = .exec q next)
      (live : x.aborted = false) (cursor : x.cursor = some k) (turn : E.resume s.db i x.ctx q k = .answer d a) :
      Took E S world s (.advance i) (s.put d i (some { x with script := next (.ok a), cursor := none }))
  | turned {w : W} {d : D} (world' : world s.db w = some d) : Took E S world s (.world w) { s with db := d }

theorem took_of_step {E : Engine L ι C D} {S : Service L ε α C D Req} {world : D → W → Option D}
    {s s' : Server L ε α ι C D E.Cursor Req} {m : Move ι Req W} (h : s.step E S world m = some s') :
    Took E S world s m s' := by
  cases m with
  | begin i req =>
    simp only [step] at h
    split at h
    · rename_i hi
      cases h
      exact .began hi
    · cases h
  | abort i =>
    obtain ⟨x,hx,rfl⟩ := Option.map_eq_some_iff.mp h
    exact .closed hx
  | world w =>
    obtain ⟨d,hd,rfl⟩ := Option.map_eq_some_iff.mp h
    exact .turned hd
  | advance i =>
    obtain ⟨x,hx,hadv⟩ := Option.bind_eq_some_iff.mp h
    unfold advance at hadv
    split at hadv
    · rename_i a hs
      split at hadv
      · cases hadv
        exact .closed hx
      · rename_i hlive
        cases hadv
        exact .committed hx hs (by simpa using hlive)
    · cases hadv
      exact .closed hx
    · rename_i q next hs
      split at hadv
      · rename_i hdead
        cases hadv
        exact .skipped hx hs hdead
      · rename_i hlive
        have hlive : x.aborted = false := by simpa using hlive
        split at hadv
        · rename_i hc
          cases hadv
          exact .started hx hs hlive hc
        · rename_i k hc
          split at hadv
          · cases hadv
          · rename_i r ht
            cases hadv
            exact .refused hx hs hlive hc ht
          · rename_i d k' ht
            cases hadv
            exact .went hx hs hlive hc ht
          · rename_i d a ht
            cases hadv
            exact .answered hx hs hlive hc ht

end Server
end Nivara.Transactions
