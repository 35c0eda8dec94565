import Nivara.Transactions.Script

/-! Invariants of a server. What every statement keeps holds in every state, whatever the
scripts are; and a script can be given an outline, checked on its own against assertions that
survive the steps of the others. -/
namespace Nivara.Transactions

variable {L : Language} {ε α ι C D Req W : Type} {E : Engine L ι C D}

/-- Conditions on the moment at which a transaction begins, a statement takes a turn, and a
transaction commits. -/
structure Terms (E : Engine L ι C D) (α Req : Type) where
  begin : D → Req → Bool
  resume : D → ι → Req → C → L.Stmt → E.Cursor → Bool
  commit : D → ι → Req → C → α → Bool

namespace Terms

def any : Terms E α Req := ⟨fun _ _ => true, fun _ _ _ _ _ _ => true, fun _ _ _ _ _ => true⟩

def admitsStep (T : Terms E α Req) (d : D) (i : ι) (x : Session L ε α C E.Cursor Req) : Bool :=
  if x.aborted then true
  else match x.script with
    | .done a => T.commit d i x.req x.ctx a
    | .fail _ => true
    | .exec q _ => x.cursor.all fun k => T.resume d i x.req x.ctx q k

def admits (T : Terms E α Req) (s : Server L ε α ι C D E.Cursor Req) : Move ι Req W → Bool
  | .begin _ req => T.begin s.db req
  | .advance i => (s.sessions i).all fun x => T.admitsStep s.db i x
  | _ => true

/-- Terms that never refuse anything. -/
theorem admits_of_all {T : Terms E α Req} (hbegin : ∀ d req, T.begin d req = true)
    (hresume : ∀ d i req ctx q k, T.resume d i req ctx q k = true) (hcommit : ∀ d i req ctx a, T.commit d i req ctx a = true)
    (s : Server L ε α ι C D E.Cursor Req) (m : Move ι Req W) : T.admits s m = true := by
  have hstep : ∀ i (x : Session L ε α C E.Cursor Req), T.admitsStep s.db i x = true := by
    intro i x
    unfold admitsStep
    split
    · rfl
    · split
      · exact hcommit ..
      · rfl
      · cases x.cursor with
        | none => rfl
        | some k => exact hresume ..
  cases m with
  | begin i req => exact hbegin ..
  | advance i =>
    simp only [admits]
    cases s.sessions i with
    | none => rfl
    | some x => exact hstep i x
  | abort i => rfl
  | world w => rfl

theorem commit_of_admits {T : Terms E α Req} {s : Server L ε α ι C D E.Cursor Req} {i : ι}
    {x : Session L ε α C E.Cursor Req} {a : α} (h : T.admits s (.advance i : Move ι Req W) = true)
    (hx : s.sessions i = some x) (hs : x.script = .done a) (hl : x.aborted = false) :
    T.commit s.db i x.req x.ctx a = true := by
  simpa [admits, admitsStep, hx, hs, hl] using h

theorem resume_of_admits {T : Terms E α Req} {s : Server L ε α ι C D E.Cursor Req} {i : ι}
    {x : Session L ε α C E.Cursor Req} {q : L.Stmt} {next : Except L.Refusal (L.Ans q) → Script L ε α} {k : E.Cursor}
    (h : T.admits s (.advance i : Move ι Req W) = true) (hx : s.sessions i = some x) (hs : x.script = .exec q next)
    (hl : x.aborted = false) (hc : x.cursor = some k) : T.resume s.db i x.req x.ctx q k = true := by
  simpa [admits, admitsStep, hx, hs, hl, hc] using h

end Terms

inductive Engine.Reaches (E : Engine L ι C D) (i : ι) (ctx : C) (q : L.Stmt) : E.Cursor → Prop
  | start (d : D) : E.Reaches i ctx q (E.start d i ctx q)
  | more {d d' : D} {k k' : E.Cursor} : E.Reaches i ctx q k → E.resume d i ctx q k = .more d' k' → E.Reaches i ctx q k'

/-- The ways a step changes the database, with what is `known` of the statement that has its turn. -/
inductive Changes (E : Engine L ι C D) (world : D → W → Option D)
    (known : D → ι → C → L.Stmt → E.Cursor → Prop) (d : D) : D → Prop
  | commit (i : ι) : Changes E world known d (E.commit d i)
  | rollback (i : ι) : Changes E world known d (E.rollback d i)
  | more {i : ι} {ctx : C} {q : L.Stmt} {k k' : E.Cursor} {d' : D} (knows : known d i ctx q k)
      (turn : E.resume d i ctx q k = .more d' k') : Changes E world known d d'
  | answer {i : ι} {ctx : C} {q : L.Stmt} {k : E.Cursor} {d' : D} {a : L.Ans q} (knows : known d i ctx q k)
      (turn : E.resume d i ctx q k = .answer d' a) : Changes E world known d d'
  | world {w : W} {d' : D} (turned : world d w = some d') : Changes E world known d d'

/-- Every statement still to come is among `p`, and a statement under way is at one of its cursors. -/
def Server.Disciplined (E : Engine L ι C D) (p : L.Stmt → Prop) (s : Server L ε α ι C D E.Cursor Req) : Prop :=
  ∀ i x, s.sessions i = some x → x.script.Only p ∧
    (x.aborted = false → ∀ q next k, x.script = .exec q next → x.cursor = some k → E.Reaches i x.ctx q k)

def Terms.Knows (T : Terms E α Req) (p : L.Stmt → Prop) (d : D) (i : ι) (ctx : C) (q : L.Stmt) (k : E.Cursor) : Prop :=
  p q ∧ E.Reaches i ctx q k ∧ ∃ req, T.resume d i req ctx q k = true

variable [DecidableEq ι] {S : Service L ε α C D Req} {world : D → W → Option D} {p : L.Stmt → Prop} {T : Terms E α Req}

theorem disciplined_step {s s' : Server L ε α ι C D E.Cursor Req} {m : Move ι Req W}
    (hS : ∀ req, (S.script req).Only p) (h : s.Disciplined E p) (hs : s.step E S world m = some s') :
    s'.Disciplined E p := by
  -- only the session that moved has to be looked at
  have hput : ∀ d i x as, (∀ y, x = some y → y.script.Only p ∧ (y.aborted = false → ∀ q next k,
      y.script = .exec q next → y.cursor = some k → E.Reaches i y.ctx q k)) →
      Server.Disciplined E p { s.put d i x with answers := as } := by
    intro d i x as hx j y hy
    by_cases hji : j = i
    · subst hji
      exact hx y ((s.put_self d j x).symm.trans hy)
    · exact h j y ((s.put_other d x hji).symm.trans hy)
  cases Server.took_of_step hs with
  | @began i req hi =>
    refine hput _ _ _ _ fun y hy => ?_
    cases hy
    exact ⟨hS req,fun _ q next k _ hk => by cases hk⟩
  | committed _ _ _ => exact hput _ _ _ _ fun y hy => by cases hy
  | closed _ => exact hput _ _ _ _ fun y hy => by cases hy
  | @skipped i x q next hx hscript hdead =>
    refine hput _ _ _ _ fun y hy => ?_
    cases hy
    have hO := (h i x hx).1
    rw [hscript] at hO
    exact ⟨hO.2 _,fun hl => by cases hdead.symm.trans hl⟩
  | @started i x q next hx hscript hl hc =>
    refine hput _ _ _ _ fun y hy => ?_
    cases hy
    refine ⟨(h i x hx).1,fun _ q' next' k hq hk => ?_⟩
    cases hscript.symm.trans hq
    cases hk
    exact .start s.db
  | @refused i x q next k r hx hscript _ _ _ =>
    refine hput _ _ _ _ fun y hy => ?_
    cases hy
    have hO := (h i x hx).1
    rw [hscript] at hO
    exact ⟨hO.2 _,fun hl => by cases hl⟩
  | @went i x q next k k' d hx hscript hl hc ht =>
    refine hput _ _ _ _ fun y hy => ?_
    cases hy
    refine ⟨(h i x hx).1,fun _ q' next' k'' hq hk => ?_⟩
    cases hscript.symm.trans hq
    cases hk
    exact .more ((h i x hx).2 hl q next k hscript hc) ht
  | @answered i x q next k d a hx hscript hl hc ht =>
    refine hput _ _ _ _ fun y hy => ?_
    cases hy
    have hO := (h i x hx).1
    rw [hscript] at hO
    exact ⟨hO.2 _,fun _ q' next' k' _ hk => by cases hk⟩
  | turned _ => exact h

theorem disciplined_of_run {ok : Server L ε α ι C D E.Cursor Req → Move ι Req W → Prop}
    {s t : Server L ε α ι C D E.Cursor Req} {acts : List (Move ι Req W)} (hS : ∀ req, (S.script req).Only p)
    (h : s.Disciplined E p) (hr : Run (Server.step E S world) ok s acts t) : t.Disciplined E p :=
  hr.invariant h fun _ _ _ ht _ hs => disciplined_step hS ht hs

theorem changes_of_step {known : D → ι → C → L.Stmt → E.Cursor → Prop} {s s' : Server L ε α ι C D E.Cursor Req}
    {m : Move ι Req W} (hs : s.step E S world m = some s')
    (hknown : ∀ i x q next k, m = .advance i → s.sessions i = some x → x.script = .exec q next → x.aborted = false →
      x.cursor = some k → known s.db i x.ctx q k) :
    s'.db = s.db ∨ Changes E world known s.db s'.db := by
  cases Server.took_of_step hs with
  | began _ => exact .inl rfl
  | committed _ _ _ => exact .inr (.commit _)
  | closed _ => exact .inr (.rollback _)
  | skipped _ _ _ => exact .inl rfl
  | started _ _ _ _ => exact .inl rfl
  | refused _ _ _ _ _ => exact .inr (.rollback _)
  | went hx hscript hl hc ht => exact .inr (.more (hknown _ _ _ _ _ rfl hx hscript hl hc) ht)
  | answered hx hscript hl hc ht => exact .inr (.answer (hknown _ _ _ _ _ rfl hx hscript hl hc) ht)
  | turned hw => exact .inr (.world hw)

/-- A step is a commit, which answers, or has in common with all others what they have in common. -/
theorem commit_of_step {U : D → D → Prop} {s s' : Server L ε α ι C D E.Cursor Req} {m : Move ι Req W}
    (hrefl : ∀ d, U d d) (hroll : ∀ d i, U d (E.rollback d i))
    (hmore : ∀ d i ctx q k d' k', E.resume d i ctx q k = .more d' k' → U d d')
    (hanswer : ∀ d i ctx q k d' a, E.resume d i ctx q k = .answer d' a → U d d')
    (hworld : ∀ d w d', world d w = some d' → U d d') (hs : s.step E S world m = some s') :
    (s'.answers = s.answers ∧ U s.db s'.db) ∨ ∃ i x a, m = .advance i ∧ s.sessions i = some x ∧
      x.script = .done a ∧ x.aborted = false ∧ s'.db = E.commit s.db i ∧ s'.answers = s.answers ++ [(x.req, a)] := by
  cases Server.took_of_step hs with
  | began _ => exact .inl ⟨rfl,hrefl _⟩
  | committed hx hscript hl => exact .inr ⟨_,_,_,rfl,hx,hscript,hl,rfl,rfl⟩
  | closed _ => exact .inl ⟨rfl,hroll _ _⟩
  | skipped _ _ _ => exact .inl ⟨rfl,hrefl _⟩
  | started _ _ _ _ => exact .inl ⟨rfl,hrefl _⟩
  | refused _ _ _ _ _ => exact .inl ⟨rfl,hroll _ _⟩
  | went _ _ _ _ ht => exact .inl ⟨rfl,hmore _ _ _ _ _ _ _ ht⟩
  | answered _ _ _ _ ht => exact .inl ⟨rfl,hanswer _ _ _ _ _ _ _ ht⟩
  | turned hw => exact .inl ⟨rfl,hworld _ _ _ hw⟩

omit [DecidableEq ι] in
theorem knows_of_disciplined {s : Server L ε α ι C D E.Cursor Req} (h : s.Disciplined E p) {i : ι}
    {x : Session L ε α C E.Cursor Req} {q : L.Stmt} {next : Except L.Refusal (L.Ans q) → Script L ε α} {k : E.Cursor}
    (hok : T.admits s (.advance i : Move ι Req W) = true) (hx : s.sessions i = some x) (hscript : x.script = .exec q next)
    (hl : x.aborted = false) (hc : x.cursor = some k) : T.Knows p s.db i x.ctx q k := by
  have hO := (h i x hx).1
  rw [hscript] at hO
  exact ⟨hO.1,(h i x hx).2 hl q next k hscript hc,x.req,Terms.resume_of_admits hok hx hscript hl hc⟩

/-- What every change of the database keeps holds in every state of every run. -/
theorem db_invariant {I : D → Prop} {s t : Server L ε α ι C D E.Cursor Req} {acts : List (Move ι Req W)}
    (hS : ∀ req, (S.script req).Only p) (hdis : s.Disciplined E p)
    (hr : Run (Server.step E S world) (fun s m => T.admits s m = true) s acts t) (h : I s.db)
    (hstep : ∀ d d', I d → Changes E world (T.Knows p) d d' → I d') : I t.db := by
  refine (hr.invariant (I := fun s => s.Disciplined E p ∧ I s.db) ⟨hdis,h⟩ fun t m u ht hok hs => ?_).2
  refine ⟨disciplined_step hS ht.1 hs,?_⟩
  have hknown : ∀ i x q next k, m = .advance i → t.sessions i = some x → x.script = .exec q next →
      x.aborted = false → x.cursor = some k → T.Knows p t.db i x.ctx q k := by
    rintro i x q next k rfl hx hscript hl hc
    exact knows_of_disciplined ht.1 hok hx hscript hl hc
  rcases changes_of_step hs hknown with heq | hc
  · rw [heq]
    exact ht.2
  · exact hstep _ _ ht.2 hc

def Server.Armed (S : Service L ε α C D Req) (s : Server L ε α ι C D E.Cursor Req) : Prop :=
  ∀ i x, s.sessions i = some x → ∃ d, x.ctx = S.context d x.req

private theorem armed_step {s s' : Server L ε α ι C D E.Cursor Req} {m : Move ι Req W} (h : s.Armed S)
    (hs : s.step E S world m = some s') : s'.Armed S := by
  have hput : ∀ d i x as, (∀ y, x = some y → ∃ d, y.ctx = S.context d y.req) →
      Server.Armed S { s.put d i x with answers := as } := by
    intro d i x as hx j y hy
    by_cases hji : j = i
    · subst hji
      exact hx y ((s.put_self d j x).symm.trans hy)
    · exact h j y ((s.put_other d x hji).symm.trans hy)
  cases Server.took_of_step hs with
  | began _ => exact hput _ _ _ _ fun y hy => by cases hy; exact ⟨s.db,rfl⟩
  | committed _ _ _ => exact hput _ _ _ _ fun y hy => by cases hy
  | closed _ => exact hput _ _ _ _ fun y hy => by cases hy
  | skipped hx _ _ => exact hput _ _ _ _ fun y hy => by cases hy; exact (h _ _ hx :)
  | started hx _ _ _ => exact hput _ _ _ _ fun y hy => by cases hy; exact (h _ _ hx :)
  | refused hx _ _ _ _ => exact hput _ _ _ _ fun y hy => by cases hy; exact (h _ _ hx :)
  | went hx _ _ _ _ => exact hput _ _ _ _ fun y hy => by cases hy; exact (h _ _ hx :)
  | answered hx _ _ _ _ => exact hput _ _ _ _ fun y hy => by cases hy; exact (h _ _ hx :)
  | turned _ => exact h

omit [DecidableEq ι] in
theorem armed_initial (d : D) : (Server.initial d : Server L ε α ι C D E.Cursor Req).Armed S := by
  intro i x hx
  cases hx

theorem armed_of_run {ok : Server L ε α ι C D E.Cursor Req → Move ι Req W → Prop}
    {s t : Server L ε α ι C D E.Cursor Req} {acts : List (Move ι Req W)} (h : s.Armed S)
    (hr : Run (Server.step E S world) ok s acts t) : t.Armed S :=
  hr.invariant h fun _ _ _ ht _ hs => armed_step ht hs

omit [DecidableEq ι] in
theorem disciplined_initial (d : D) : (Server.initial d : Server L ε α ι C D E.Cursor Req).Disciplined E p := by
  intro i x hx
  cases hx

/-- Any statement at all. -/
theorem Script.only_any (s : Script L ε α) : s.Only fun _ => True := by
  induction s with
  | done _ => trivial
  | fail _ => trivial
  | exec q next ih => exact ⟨trivial,ih⟩

theorem Script.Only.mono {p' : L.Stmt → Prop} {s : Script L ε α} (h : s.Only p) (hp : ∀ q, p q → p' q) : s.Only p' := by
  induction s with
  | done _ => trivial
  | fail _ => trivial
  | exec q next ih => exact ⟨hp q h.1,fun r => ih r (h.2 r)⟩

theorem Script.Only.and {p' : L.Stmt → Prop} {s : Script L ε α} (h : s.Only p) (h' : s.Only p') : s.Only fun q => p q ∧ p' q := by
  induction s with
  | done _ => trivial
  | fail _ => trivial
  | exec q next ih => exact ⟨⟨h.1,h'.1⟩,fun r => ih r (h.2 r) (h'.2 r)⟩

theorem Script.Only.bind {β : Type} {x : Script L ε β} {f : β → Script L ε α} (hx : x.Only p) (hf : ∀ b, (f b).Only p) :
    (x.bind f).Only p := by
  induction x with
  | done b => exact hf b
  | fail e => trivial
  | exec q next ih => exact ⟨hx.1,fun r => ih r (hx.2 r)⟩

theorem Script.Only.rethrow {g : ε → ε} {x : Script L ε α} (hx : x.Only p) : (x.rethrow g).Only p := by
  induction x with
  | done b => trivial
  | fail e => trivial
  | exec q next ih => exact ⟨hx.1,fun r => ih r (hx.2 r)⟩

theorem Script.only_query {q : L.Stmt} {thrown : L.Refusal → ε} (h : p q) : (Script.query q thrown).Only p := by
  refine ⟨h,fun r => ?_⟩
  cases r with
  | error e => trivial
  | ok a => trivial

/-- A global invariant; what transaction `i` may rely on while the others take steps; what holds
of `i` before it has done anything; and what is to hold when a request commits. `mine` is what
every transaction keeps of its own rows, whatever its script is. -/
structure Regime (E : Engine L ι C D) (α Req W : Type) (world : D → W → Option D) where
  terms : Terms E α Req
  inv : D → Prop
  rely : ι → D → D → Prop
  idle : ι → D → Prop
  post : ι → Req → C → α → D → Prop
  mine : ι → C → D → Prop := fun _ _ _ => True
  inv_rollback : ∀ d i, inv d → inv (E.rollback d i)
  inv_world : ∀ d w d', inv d → world d w = some d' → inv d'
  idle_commit : ∀ d i, idle i (E.commit d i)
  idle_rollback : ∀ d i, idle i (E.rollback d i)
  idle_stable : ∀ i d d', rely i d d' → idle i d → idle i d'
  rely_refl : ∀ i d, rely i d d
  rely_commit : ∀ d i j req ctx a, j ≠ i → inv d → mine i ctx d → terms.commit d i req ctx a = true → rely j d (E.commit d i)
  rely_rollback : ∀ d i j, j ≠ i → inv d → rely j d (E.rollback d i)
  rely_more : ∀ d i j ctx q k d' k', j ≠ i → inv d → E.resume d i ctx q k = .more d' k' → rely j d d'
  rely_answer : ∀ d i j ctx q k d' a, j ≠ i → inv d → E.resume d i ctx q k = .answer d' a → rely j d d'
  rely_world : ∀ j d w d', inv d → world d w = some d' → rely j d d'
  mine_idle : ∀ d i ctx, idle i d → mine i ctx d := by intros; trivial
  mine_stable : ∀ i ctx d d', rely i d d' → mine i ctx d → mine i ctx d' := by intros; trivial
  mine_more : ∀ d i ctx q k d' k', inv d → mine i ctx d → E.resume d i ctx q k = .more d' k' → mine i ctx d' := by intros; trivial
  mine_answer : ∀ d i ctx q k d' a, inv d → mine i ctx d → E.resume d i ctx q k = .answer d' a → mine i ctx d' := by
    intros; trivial

namespace Regime
variable (R : Regime E α Req W world)

/-- An assertion of transaction `i` that no other transaction can falsify. -/
def Stable (i : ι) (P : D → Prop) : Prop := ∀ d d', R.inv d → R.inv d' → R.rely i d d' → P d → P d'

/-- The outline of a statement that has started: `Q` holds of its cursor until it answers, and
the answer leaves `next`. -/
def SafeTurns (i : ι) (req : Req) (ctx : C) (q : L.Stmt) (Q : E.Cursor → D → Prop)
    (next : L.Ans q → (D → Prop) → Prop) : Prop :=
  ∀ d k, R.inv d → Q k d → R.terms.resume d i req ctx q k = true →
    (∀ d' k', E.resume d i ctx q k = .more d' k' → R.inv d' ∧ Q k' d') ∧
    ∀ d' a, E.resume d i ctx q k = .answer d' a → R.inv d' ∧ ∃ P, R.Stable i P ∧ P d' ∧ next a P

/-- `Safe i req ctx p P`: run from any database with `P`, the rest `p` of the request keeps the
invariant at each of its steps, between which the others do anything, and its commit meets
the postcondition. Nothing is asked of an aborted transaction. -/
def Safe (i : ι) (req : Req) (ctx : C) : Script L ε α → (D → Prop) → Prop
  | .done a, P => ∀ d, R.inv d → P d → R.terms.commit d i req ctx a = true →
      R.inv (E.commit d i) ∧ R.post i req ctx a d
  | .fail _, _ => True
  | .exec q next, P => ∃ Q : E.Cursor → D → Prop, (∀ k, R.Stable i (Q k)) ∧
      (∀ d, R.inv d → P d → Q (E.start d i ctx q) d) ∧
      R.SafeTurns i req ctx q Q fun a P => Safe i req ctx (next (.ok a)) P

/-- An open transaction is aborted and has nothing, or has an outline for what is left of it. -/
def Outlined (i : ι) (d : D) (x : Session L ε α C E.Cursor Req) : Prop :=
  (x.aborted = true → R.idle i d) ∧
  (x.aborted = false →
    (x.cursor = none ∧ ∃ P, R.Stable i P ∧ P d ∧ R.Safe i x.req x.ctx x.script P) ∨
    ∃ q next k Q, x.script = .exec q next ∧ x.cursor = some k ∧ (∀ k, R.Stable i (Q k)) ∧ Q k d ∧
      R.SafeTurns i x.req x.ctx q Q fun a P => R.Safe i x.req x.ctx (next (.ok a)) P) ∧
  R.mine i x.ctx d

def Covered (s : Server L ε α ι C D E.Cursor Req) : Prop :=
  R.inv s.db ∧ (∀ i, s.sessions i = none → R.idle i s.db) ∧ ∀ i x, s.sessions i = some x → R.Outlined i s.db x

variable {R}

omit [DecidableEq ι] in
private theorem outlined_rely {i : ι} {d d' : D} {x : Session L ε α C E.Cursor Req} (hd : R.inv d) (hd' : R.inv d')
    (hr : R.rely i d d') (h : R.Outlined i d x) : R.Outlined i d' x := by
  obtain ⟨hdead,hlive,hmine⟩ := h
  refine ⟨fun ha => R.idle_stable i d d' hr (hdead ha),fun ha => ?_,R.mine_stable i x.ctx d d' hr hmine⟩
  rcases hlive ha with ⟨hc,P,hP,hPd,hs⟩ | ⟨q,next,k,Q,hx,hc,hQ,hQd,hs⟩
  · exact .inl ⟨hc,P,hP,hP d d' hd hd' hr hPd,hs⟩
  · exact .inr ⟨q,next,k,Q,hx,hc,hQ,hQ k d d' hd hd' hr hQd,hs⟩

/-- A step of `i` keeps everything covered, if `i` itself stays covered. -/
private theorem covered_put {s : Server L ε α ι C D E.Cursor Req} {d : D} {i : ι}
    {x : Option (Session L ε α C E.Cursor Req)} {answers : List (Req × α)} (h : R.Covered s) (hd : R.inv d)
    (hr : ∀ j, j ≠ i → R.rely j s.db d) (hidle : x = none → R.idle i d) (hout : ∀ y, x = some y → R.Outlined i d y) :
    R.Covered { s.put d i x with answers := answers } := by
  obtain ⟨hinv,hi,ho⟩ := h
  refine ⟨hd,fun j hj => ?_,fun j y hj => ?_⟩
  · by_cases hji : j = i
    · subst hji
      exact hidle ((s.put_self d j x).symm.trans hj)
    · exact R.idle_stable j _ _ (hr j hji) (hi j ((s.put_other d x hji).symm.trans hj))
  · by_cases hji : j = i
    · subst hji
      exact hout y ((s.put_self d j x).symm.trans hj)
    · exact outlined_rely hinv hd (hr j hji) (ho j y ((s.put_other d x hji).symm.trans hj))

omit [DecidableEq ι] in
/-- The outline of a session whose next statement has not started. -/
private theorem safe_of_outlined {i : ι} {d : D} {x : Session L ε α C E.Cursor Req} (h : R.Outlined i d x)
    (hl : x.aborted = false) (hc : x.cursor = none) : ∃ P, R.Stable i P ∧ P d ∧ R.Safe i x.req x.ctx x.script P := by
  rcases h.2.1 hl with ⟨_,hP⟩ | ⟨_,_,_,_,_,hc',_⟩
  · exact hP
  · rw [hc] at hc'
    cases hc'

omit [DecidableEq ι] in
private theorem turns_of_outlined {i : ι} {d : D} {x : Session L ε α C E.Cursor Req} {q : L.Stmt}
    {next : Except L.Refusal (L.Ans q) → Script L ε α} {k : E.Cursor} (h : R.Outlined i d x) (hl : x.aborted = false)
    (hs : x.script = .exec q next) (hc : x.cursor = some k) :
    ∃ Q, (∀ k, R.Stable i (Q k)) ∧ Q k d ∧
      R.SafeTurns i x.req x.ctx q Q fun a P => R.Safe i x.req x.ctx (next (.ok a)) P := by
  rcases h.2.1 hl with ⟨hc',_⟩ | ⟨_,_,_,Q,hs',hc',hQ,hQd,hturns⟩
  · rw [hc] at hc'
    cases hc'
  · cases hs.symm.trans hs'
    cases hc.symm.trans hc'
    exact ⟨Q,hQ,hQd,hturns⟩

omit [DecidableEq ι] in
/-- A session that commits has an outline for a finished script, whether or not it has a cursor. -/
private theorem safe_of_done {i : ι} {d : D} {x : Session L ε α C E.Cursor Req} {a : α} (h : R.Outlined i d x)
    (hl : x.aborted = false) (hs : x.script = .done a) : ∃ P, R.Stable i P ∧ P d ∧ R.Safe i x.req x.ctx x.script P := by
  rcases h.2.1 hl with ⟨_,hP⟩ | ⟨_,_,_,_,hs',_⟩
  · exact hP
  · rw [hs] at hs'
    cases hs'

def Begins (R : Regime E α Req W world) (S : Service L ε α C D Req) : Prop :=
  ∀ i d req, R.idle i d → R.terms.begin d req = true →
    ∃ P, R.Stable i P ∧ P d ∧ R.Safe i req (S.context d req) (S.script req) P

omit [DecidableEq ι] in
/-- It is enough to know of the beginning that the transaction has done nothing. -/
theorem begins_of_idle
    (hsafe : ∀ i d req, R.terms.begin d req = true → R.Safe i req (S.context d req) (S.script req) (R.idle i)) : R.Begins S :=
  fun i d req hidle hterm => ⟨R.idle i,fun d d' _ _ hr => R.idle_stable i d d' hr,hidle,hsafe i d req hterm⟩

/-- One step of one transaction, or of the world, keeps every outline. -/
theorem covered_begun {s s' : Server L ε α ι C D E.Cursor Req} {m : Move ι Req W} (hbegins : R.Begins S) (h : R.Covered s) (hok : R.terms.admits s m = true) (hs : s.step E S world m = some s') : R.Covered s' := by
  obtain ⟨hinv,hidle,hout⟩ := id h
  cases Server.took_of_step hs with
  | @began i req hi =>
    refine covered_put h hinv (fun j _ => R.rely_refl j _) (fun hn => by cases hn) fun y hy => ?_
    cases hy
    exact ⟨fun ha => (by cases ha),fun _ => .inl ⟨rfl,hbegins i s.db req (hidle i hi) hok⟩,R.mine_idle _ _ _ (hidle i hi)⟩
  | @committed i x a hx hscript hl =>
    have hterm := Terms.commit_of_admits hok hx hscript hl
    obtain ⟨P,_,hPd,hS⟩ := safe_of_done (hout i x hx) hl hscript
    rw [hscript] at hS
    refine covered_put h (hS s.db hinv hPd hterm).1 (fun j hj => R.rely_commit _ _ _ _ _ a hj hinv (hout i x hx).2.2 hterm)
      (fun _ => R.idle_commit _ _) fun y hy => by cases hy
  | closed hx =>
    exact covered_put h (R.inv_rollback _ _ hinv) (fun j hj => R.rely_rollback _ _ j hj hinv)
      (fun _ => R.idle_rollback _ _) fun y hy => by cases hy
  | @skipped i x q next hx _ hdead =>
    refine covered_put h hinv (fun j _ => R.rely_refl j _) (fun hn => by cases hn) fun y hy => ?_
    cases hy
    exact ⟨fun _ => (hout i x hx).1 hdead,fun hl => (by cases hdead.symm.trans hl),(hout i x hx).2.2⟩
  | @started i x q next hx hscript hl hc =>
    obtain ⟨P,_,hPd,hS⟩ := safe_of_outlined (hout i x hx) hl hc
    rw [hscript] at hS
    obtain ⟨Q,hQ,hstart,hturns⟩ := hS
    refine covered_put h hinv (fun j _ => R.rely_refl j _) (fun hn => by cases hn) fun y hy => ?_
    cases hy
    refine ⟨fun ha => (by cases hl.symm.trans ha),fun _ => .inr ?_,(hout i x hx).2.2⟩
    exact ⟨q,next,_,Q,hscript,rfl,hQ,hstart s.db hinv hPd,hturns⟩
  | @refused i x q next k r hx _ _ _ _ =>
    refine covered_put h (R.inv_rollback _ _ hinv) (fun j hj => R.rely_rollback _ _ j hj hinv) (fun hn => by cases hn)
      fun y hy => ?_
    cases hy
    exact ⟨fun _ => R.idle_rollback _ _,fun hl => (by cases hl),R.mine_idle _ _ _ (R.idle_rollback _ _)⟩
  | @went i x q next k k' d hx hscript hl hc ht =>
    obtain ⟨Q,hQ,hQd,hturns⟩ := turns_of_outlined (hout i x hx) hl hscript hc
    obtain ⟨hd,hQ'⟩ := (hturns s.db k hinv hQd (Terms.resume_of_admits hok hx hscript hl hc)).1 d k' ht
    refine covered_put h hd (fun j hj => R.rely_more _ _ j _ _ _ _ _ hj hinv ht) (fun hn => by cases hn) fun y hy => ?_
    cases hy
    exact ⟨fun ha => (by cases hl.symm.trans ha),fun _ => .inr ⟨q,next,k',Q,hscript,rfl,hQ,hQ',hturns⟩,
      R.mine_more _ _ _ _ _ _ _ hinv (hout i x hx).2.2 ht⟩
  | @answered i x q next k d a hx hscript hl hc ht =>
    obtain ⟨Q,_,hQd,hturns⟩ := turns_of_outlined (hout i x hx) hl hscript hc
    obtain ⟨hd,P,hP,hPd,hS⟩ := (hturns s.db k hinv hQd (Terms.resume_of_admits hok hx hscript hl hc)).2 d a ht
    refine covered_put h hd (fun j hj => R.rely_answer _ _ j _ _ _ _ a hj hinv ht) (fun hn => by cases hn) fun y hy => ?_
    cases hy
    exact ⟨fun ha => (by cases hl.symm.trans ha),fun _ => .inl ⟨rfl,P,hP,hPd,hS⟩,
      R.mine_answer _ _ _ _ _ _ a hinv (hout i x hx).2.2 ht⟩
  | turned hw =>
    have hd := R.inv_world _ _ _ hinv hw
    refine ⟨hd,fun j hj => R.idle_stable j _ _ (R.rely_world j _ _ _ hinv hw) (hidle j hj),fun j y hj => ?_⟩
    exact outlined_rely hinv hd (R.rely_world j _ _ _ hinv hw) (hout j y hj)

theorem covered_step {s s' : Server L ε α ι C D E.Cursor Req} {m : Move ι Req W}
    (hsafe : ∀ i d req, R.terms.begin d req = true → R.Safe i req (S.context d req) (S.script req) (R.idle i))
    (h : R.Covered s) (hok : R.terms.admits s m = true) (hs : s.step E S world m = some s') : R.Covered s' :=
  covered_begun (begins_of_idle hsafe) h hok hs

/-- Soundness: when every request has an outline from the idle state, every state of every run
that respects the terms is covered. -/
theorem covered_of_run {d : D} {acts : List (Move ι Req W)} {s : Server L ε α ι C D E.Cursor Req}
    (hsafe : ∀ i d req, R.terms.begin d req = true → R.Safe i req (S.context d req) (S.script req) (R.idle i))
    (hinit : R.inv d) (hidle : ∀ i, R.idle i d)
    (hr : Run (Server.step E S world) (fun s m => R.terms.admits s m = true) (Server.initial d) acts s) :
    R.Covered s := by
  refine hr.invariant ⟨hinit,fun i _ => hidle i,fun _ _ hx => by cases hx⟩ fun t m u ht hok hs => ?_
  exact covered_step hsafe ht hok hs

omit [DecidableEq ι] in
/-- A transaction that commits meets its postcondition. -/
theorem post_of_commit {s : Server L ε α ι C D E.Cursor Req} {i : ι} {x : Session L ε α C E.Cursor Req} {a : α}
    (h : R.Covered s) (hok : R.terms.admits s (.advance i : Move ι Req W) = true) (hx : s.sessions i = some x)
    (hs : x.script = .done a) (hl : x.aborted = false) : R.post i x.req x.ctx a s.db := by
  obtain ⟨P,_,hPd,hS⟩ := safe_of_done (h.2.2 i x hx) hl hs
  rw [hs] at hS
  exact (hS s.db h.1 hPd (Terms.commit_of_admits hok hx hs hl)).2

end Regime
end Nivara.Transactions
