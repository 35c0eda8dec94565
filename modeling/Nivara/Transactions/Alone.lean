import Nivara.Transactions.Outline

/-! A transaction that runs with nobody beside it, as one evaluation of its script, and the steps
of the server it stands for. -/
namespace Nivara.Transactions

variable {L : Language} {ε α ι C D Req W : Type}

/-- The statement gets its turns until it answers or is refused: at most `n` of them. -/
def Engine.ask (E : Engine L ι C D) (i : ι) (ctx : C) (q : L.Stmt) :
    Nat → D → E.Cursor → Option (D × Except L.Refusal (L.Ans q))
  | 0, _, _ => none
  | n + 1, d, k =>
    match E.resume d i ctx q k with
    | .wait => none
    | .refuse r => some (d, .error r)
    | .more d' k' => E.ask i ctx q n d' k'
    | .answer d' a => some (d', .ok a)

def Script.thrown (refusal : L.Refusal) : Script L ε α → Option ε
  | .done _ => none
  | .fail e => some e
  | .exec _ next => (next (.error refusal)).thrown refusal

/-- The transaction from its first statement to its end: the database it leaves, and what it
returns or throws. No statement may take more than `n` turns. -/
def Script.alone (E : Engine L ι C D) (i : ι) (ctx : C) (n : Nat) : Script L ε α → D → Option (D × Except (Option ε) α)
  | .done a, d => some (E.commit d i, .ok a)
  | .fail e, d => some (E.rollback d i, .error (some e))
  | .exec q next, d =>
    match E.ask i ctx q n d (E.start d i ctx q) with
    | none => none
    | some (d', .ok a) => (next (.ok a)).alone E i ctx n d'
    | some (d', .error r) => some (E.rollback d' i, .error ((next (.error r)).thrown E.aborted))

namespace Script
variable {E : Engine L ι C D} {i : ι} {ctx : C} {n : Nat} {d d' : D} {q : L.Stmt}
  {next : Except L.Refusal (L.Ans q) → Script L ε α}

/-- A statement that is answered hands over to what follows it. -/
theorem alone_of_answer {a : L.Ans q} (h : E.ask i ctx q n d (E.start d i ctx q) = some (d', .ok a)) :
    (exec q next).alone E i ctx n d = (next (.ok a)).alone E i ctx n d' := by
  simp only [alone, h]

/-- A statement that is refused ends the transaction. -/
theorem alone_of_refusal {r : L.Refusal} (h : E.ask i ctx q n d (E.start d i ctx q) = some (d', .error r)) :
    (exec q next).alone E i ctx n d = some (E.rollback d' i, .error ((next (.error r)).thrown E.aborted)) := by
  simp only [alone, h]

theorem thrown_map {β : Type} (f : α → β) (refusal : L.Refusal) (p : Script L ε α) :
    (p.bind fun a => .done (f a)).thrown refusal = p.thrown refusal := by
  induction p with
  | done a => rfl
  | fail e => rfl
  | exec q next ih => exact ih (.error refusal)

/-- A result that is only passed on changes nothing for the database. -/
theorem alone_map {β : Type} (f : α → β) (p : Script L ε α) (d : D) :
    (p.bind fun a => .done (f a)).alone E i ctx n d = (p.alone E i ctx n d).map fun x => (x.1, x.2.map f) := by
  induction p generalizing d with
  | done a => rfl
  | fail e => rfl
  | exec q next ih =>
    simp only [exec_bind, alone]
    split
    · rfl
    · exact ih _ _
    · rw [thrown_map]
      rfl

end Script

section Invariant
variable {E : Engine L ι C D} {i : ι} {ctx : C} {n : Nat} {d d' : D} {q : L.Stmt} {P Q : D → Prop}

/-- What every turn of a statement keeps, the statement keeps. -/
theorem Engine.ask_invariant {k : E.Cursor} {r : Except L.Refusal (L.Ans q)}
    (hmore : ∀ d k d' k', E.Reaches i ctx q k → P d → E.resume d i ctx q k = .more d' k' → P d')
    (hanswer : ∀ d k d' a, E.Reaches i ctx q k → P d → E.resume d i ctx q k = .answer d' a → P d')
    (hk : E.Reaches i ctx q k) (hd : P d) (h : E.ask i ctx q n d k = some (d', r)) : P d' := by
  induction n generalizing d k with
  | zero => cases h
  | succ n ih =>
    simp only [Engine.ask] at h
    split at h
    · cases h
    · cases h
      exact hd
    · rename_i d₁ k₁ ht
      exact ih (.more hk ht) (hmore d k d₁ k₁ hk hd ht) h
    · rename_i a ht
      cases h
      exact hanswer d k d' a hk hd ht

/-- A script keeps to its end what all its statements keep. -/
theorem Script.alone_invariant {ok : L.Stmt → Prop}
    (hmore : ∀ q d k d' k', ok q → E.Reaches i ctx q k → P d → E.resume d i ctx q k = .more d' k' → P d')
    (hanswer : ∀ q d k d' a, ok q → E.Reaches i ctx q k → P d → E.resume d i ctx q k = .answer d' a → P d')
    (hcommit : ∀ d, P d → Q (E.commit d i)) (hroll : ∀ d, P d → Q (E.rollback d i)) {p : Script L ε α}
    {r : Except (Option ε) α} (hp : p.Only ok) (hd : P d) (h : p.alone E i ctx n d = some (d', r)) : Q d' := by
  induction p generalizing d with
  | done a =>
    cases h
    exact hcommit d hd
  | fail e =>
    cases h
    exact hroll d hd
  | exec q next ih =>
    have hask : ∀ d₁ r₁, E.ask i ctx q n d (E.start d i ctx q) = some (d₁, r₁) → P d₁ := fun d₁ r₁ h₁ =>
      Engine.ask_invariant (fun d k d' k' => hmore q d k d' k' hp.1) (fun d k d' a => hanswer q d k d' a hp.1)
        (.start d) hd h₁
    simp only [alone] at h
    split at h
    · cases h
    · rename_i d₁ a h₁
      exact ih (.ok a) (hp.2 (.ok a)) (hask d₁ _ h₁) h
    · rename_i d₁ e h₁
      cases h
      exact hroll d₁ (hask d₁ _ h₁)

end Invariant

section Turns
variable {E : Engine L ι C D} {i : ι} {ctx : C} {n m : Nat} {d d' : D}

/-- More turns than it needs change nothing for a statement. -/
theorem Engine.ask_mono {q : L.Stmt} {k : E.Cursor} {r : Except L.Refusal (L.Ans q)} (h : E.ask i ctx q n d k = some (d', r))
    (hm : n ≤ m) : E.ask i ctx q m d k = some (d', r) := by
  induction n generalizing m d k with
  | zero => cases h
  | succ n ih =>
    obtain ⟨m,rfl⟩ : ∃ m', m = m' + 1 := ⟨m - 1,by omega⟩
    simp only [Engine.ask] at h ⊢
    split at h
    · cases h
    · exact h
    · exact ih h (by omega)
    · exact h

theorem Script.alone_mono {p : Script L ε α} {r : Except (Option ε) α} (h : p.alone E i ctx n d = some (d', r)) (hm : n ≤ m) :
    p.alone E i ctx m d = some (d', r) := by
  induction p generalizing d with
  | done a => exact h
  | fail e => exact h
  | exec q next ih =>
    simp only [Script.alone] at h
    split at h
    · cases h
    · rename_i d₁ a hask
      rw [Script.alone_of_answer (Engine.ask_mono hask hm)]
      exact ih (.ok a) h
    · rename_i d₁ e hask
      rw [Script.alone_of_refusal (Engine.ask_mono hask hm)]
      exact h

/-- However many turns there are, a script that comes to its end comes to the same one. -/
theorem Script.alone_unique {p : Script L ε α} {x y : D × Except (Option ε) α} (hx : p.alone E i ctx n d = some x)
    (hy : p.alone E i ctx m d = some y) : x = y := by
  have hx' := alone_mono hx (Nat.le_max_left n m)
  rw [alone_mono hy (Nat.le_max_right n m)] at hx'
  exact (Option.some.inj hx').symm

end Turns

namespace Server
variable [DecidableEq ι] {E : Engine L ι C D} {S : Service L ε α C D Req} {world : D → W → Option D}

def Reaches (E : Engine L ι C D) (S : Service L ε α C D Req) (world : D → W → Option D) (i : ι)
    (s s' : Server L ε α ι C D E.Cursor Req) : Prop :=
  ∃ n, Run (step E S world) Always s (List.replicate n (.advance i)) s'

theorem Reaches.refl (i : ι) (s : Server L ε α ι C D E.Cursor Req) : Reaches E S world i s s := ⟨0,.nil⟩

theorem Reaches.head {i : ι} {s u t : Server L ε α ι C D E.Cursor Req} (hs : s.step E S world (.advance i) = some u)
    (h : Reaches E S world i u t) : Reaches E S world i s t := by
  obtain ⟨n,hr⟩ := h
  exact ⟨n + 1,(Run.snoc .nil trivial hs).append hr⟩

theorem Reaches.trans {i : ι} {s u t : Server L ε α ι C D E.Cursor Req} (h : Reaches E S world i s u)
    (h' : Reaches E S world i u t) : Reaches E S world i s t := by
  obtain ⟨n,hr⟩ := h
  obtain ⟨n',hr'⟩ := h'
  exact ⟨n + n',by rw [List.replicate_add]; exact hr.append hr'⟩

def finish (s : Server L ε α ι C D E.Cursor Req) (i : ι) (d : D) (answers : List (Req × α)) :
    Server L ε α ι C D E.Cursor Req :=
  { s.put d i none with answers := s.answers ++ answers }

private theorem put_put (s : Server L ε α ι C D E.Cursor Req) (d d' : D) (i : ι)
    (x y : Option (Session L ε α C E.Cursor Req)) : (s.put d i x).put d' i y = s.put d' i y := by
  simp [put, Function.update_idem]

private theorem step_put {s : Server L ε α ι C D E.Cursor Req} {d : D} {i : ι} {x : Session L ε α C E.Cursor Req}
    {t : Server L ε α ι C D E.Cursor Req} (h : (s.put d i (some x)).advance E i x = some t) :
    (s.put d i (some x)).step E S world (.advance i) = some t := by
  simpa [step] using h

/-- An aborted transaction comes to its end whatever is left of its script. -/
private theorem reaches_thrown {i : ι} {d : D} (s : Server L ε α ι C D E.Cursor Req)
    (p : Script L ε α) (req : Req) (ctx : C) (k : Option E.Cursor) :
    Reaches E S world i (s.put d i (some ⟨req, ctx, p, k, true⟩)) (s.finish i (E.rollback d i) []) := by
  induction p with
  | done a =>
    refine (Reaches.refl i _).head (step_put ?_)
    simp [advance, finish, put]
  | fail e =>
    refine (Reaches.refl i _).head (step_put ?_)
    simp [advance, finish, put]
  | exec q next ih =>
    refine (ih (.error E.aborted)).head (step_put ?_)
    simp [advance, put_put]

private def landed (s : Server L ε α ι C D E.Cursor Req) (i : ι) (req : Req) (ctx : C) {q : L.Stmt}
    (next : Except L.Refusal (L.Ans q) → Script L ε α) (d : D) : Except L.Refusal (L.Ans q) → Server L ε α ι C D E.Cursor Req
  | .ok a => s.put d i (some ⟨req, ctx, next (.ok a), none, false⟩)
  | .error e => s.put (E.rollback d i) i (some ⟨req, ctx, next (.error e), none, true⟩)

private theorem reaches_ask {i : ι} {req : Req} {ctx : C} {q : L.Stmt} {next : Except L.Refusal (L.Ans q) → Script L ε α}
    {d d' : D} {n : Nat} {k : E.Cursor} {r : Except L.Refusal (L.Ans q)} (s : Server L ε α ι C D E.Cursor Req)
    (h : E.ask i ctx q n d k = some (d', r)) :
    Reaches E S world i (s.put d i (some ⟨req, ctx, .exec q next, some k, false⟩)) (s.landed i req ctx next d' r) := by
  induction n generalizing d k with
  | zero => cases h
  | succ n ih =>
    simp only [Engine.ask] at h
    split at h
    · cases h
    · rename_i e ht
      cases h
      refine (Reaches.refl i _).head (step_put ?_)
      simp [advance, ht, put_put, landed]
    · rename_i d₁ k₁ ht
      refine (ih h).head (step_put ?_)
      simp [advance, ht, put_put]
    · rename_i d₁ a ht
      cases h
      refine (Reaches.refl i _).head (step_put ?_)
      simp [advance, ht, put_put, landed]

/-- What a script does alone is what it does on the server when no other transaction takes a step. -/
theorem reaches_alone {i : ι} {req : Req} {ctx : C} {n : Nat} {d d' : D} {p : Script L ε α} {r : Except (Option ε) α}
    (s : Server L ε α ι C D E.Cursor Req) (hroll : ∀ d, E.rollback (E.rollback d i) i = E.rollback d i)
    (h : p.alone E i ctx n d = some (d', r)) :
    Reaches E S world i (s.put d i (some ⟨req, ctx, p, none, false⟩))
      (s.finish i d' (r.toOption.toList.map (req, ·))) := by
  induction p generalizing d with
  | done a =>
    cases h
    refine (Reaches.refl i _).head (step_put ?_)
    simp [advance, finish, put, Except.toOption]
  | fail e =>
    cases h
    refine (Reaches.refl i _).head (step_put ?_)
    simp [advance, finish, put, Except.toOption]
  | exec q next ih =>
    simp only [Script.alone] at h
    have hstart : ((s.put d i (some ⟨req, ctx, .exec q next, none, false⟩)).step E S world (.advance i)) =
        some (s.put d i (some ⟨req, ctx, .exec q next, some (E.start d i ctx q), false⟩)) := by
      refine step_put ?_
      simp [advance, put_put]
    split at h
    · cases h
    · rename_i d₁ a hask
      exact ((reaches_ask s hask).trans (ih (.ok a) h)).head hstart
    · rename_i d₁ e hask
      cases h
      refine ((reaches_ask s hask).trans ?_).head hstart
      have hend : Reaches E S world i (s.put (E.rollback d₁ i) i (some ⟨req, ctx, next (.error e), none, true⟩))
          (s.finish i (E.rollback (E.rollback d₁ i) i) []) := reaches_thrown s _ req ctx none
      rwa [hroll] at hend

end Server
end Nivara.Transactions
