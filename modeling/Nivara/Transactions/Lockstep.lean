import Nivara.Transactions.Alone

/-! Two databases side by side. If no turn of a statement can tell them apart, no transaction can that
runs with nobody beside it: it answers the same on both, and leaves them as alike as they were. -/
namespace Nivara.Transactions

variable {L : Language} {ε α β ι C D : Type}

/-- One outcome on two databases, which are related by `R` afterwards. -/
inductive Turn.Alike {K : Type} (R : D → D → Prop) {q : L.Stmt} : Turn L D K q → Turn L D K q → Prop
  | wait : Turn.Alike R .wait .wait
  | refuse (r : L.Refusal) : Turn.Alike R (.refuse r) (.refuse r)
  | more {d d' : D} (k : K) (rel : R d d') : Turn.Alike R (.more d k) (.more d' k)
  | answer {d d' : D} (a : L.Ans q) (rel : R d d') : Turn.Alike R (.answer d a) (.answer d' a)

section Engines
variable (E : Engine L ι C D) (i : ι) (ctx : C)

structure Engine.Keeps (I : D → Prop) : Prop where
  more {q : L.Stmt} {k k' : E.Cursor} {d d' : D} : I d → E.resume d i ctx q k = .more d' k' → I d'
  answer {q : L.Stmt} {k : E.Cursor} {d d' : D} {a : L.Ans q} : I d → E.resume d i ctx q k = .answer d' a → I d'

/-- The statements of `i` cannot tell apart two databases with `I` that `R` relates. -/
structure Engine.Lockstep (I : D → Prop) (R : D → D → Prop) : Prop where
  start {d d' : D} (q : L.Stmt) : I d → I d' → R d d' → E.start d i ctx q = E.start d' i ctx q
  turn {d d' : D} (q : L.Stmt) (k : E.Cursor) : I d → I d' → R d d' →
    Turn.Alike R (E.resume d i ctx q k) (E.resume d' i ctx q k)

/-- On a database with `I` a statement of `i` need not wait, and has `left` turns at most. -/
structure Engine.Prompt (I : D → Prop) (left : (q : L.Stmt) → E.Cursor → Nat) : Prop where
  turn {d : D} (q : L.Stmt) (k : E.Cursor) : I d → E.resume d i ctx q k ≠ .wait
  fewer {q : L.Stmt} {k k' : E.Cursor} {d d' : D} : I d → E.resume d i ctx q k = .more d' k' → left q k' < left q k

structure Engine.Vouches (I : D → Prop) (ok : D → (q : L.Stmt) → L.Ans q → Prop) : Prop where
  answer {q : L.Stmt} {k : E.Cursor} {d d' : D} {a : L.Ans q} : I d → E.resume d i ctx q k = .answer d' a → ok d' q a
  lasts (q : L.Stmt) (a : L.Ans q) : E.Keeps i ctx fun d => I d ∧ ok d q a

end Engines

namespace Engine
variable {E : Engine L ι C D} {i : ι} {ctx : C} {I : D → Prop} {R : D → D → Prop} {n : Nat} {d d' e : D} {q : L.Stmt}
  {k : E.Cursor}

theorem Keeps.ask {x : Except L.Refusal (L.Ans q)} (h : E.Keeps i ctx I) (hd : I d) (ha : E.ask i ctx q n d k = some (e, x)) :
    I e := by
  induction n generalizing d k with
  | zero => cases ha
  | succ n ih =>
    simp only [Engine.ask] at ha
    split at ha
    · cases ha
    · cases ha
      exact hd
    · rename_i d₁ k₁ ht
      exact ih (h.more hd ht) ha
    · rename_i d₁ a ht
      cases ha
      exact h.answer hd ht

theorem Lockstep.ask {x : Except L.Refusal (L.Ans q)} (hk : E.Keeps i ctx I) (h : E.Lockstep i ctx I R) (hd : I d) (hd' : I d')
    (hr : R d d') (ha : E.ask i ctx q n d k = some (e, x)) :
    ∃ e', E.ask i ctx q n d' k = some (e', x) ∧ R e e' := by
  induction n generalizing d d' k with
  | zero => cases ha
  | succ n ih =>
    simp only [Engine.ask] at ha ⊢
    have hturn := h.turn q k hd hd' hr
    generalize ht : E.resume d i ctx q k = t at ha hturn
    generalize ht' : E.resume d' i ctx q k = t' at hturn
    cases hturn with
    | wait => cases ha
    | refuse r =>
      cases ha
      exact ⟨d',rfl,hr⟩
    | more k₁ hr₁ => exact ih (hk.more hd ht) (hk.more hd' ht') hr₁ ha
    | answer a hr₁ =>
      cases ha
      exact ⟨_,rfl,hr₁⟩

theorem Vouches.ask {ok : D → (q : L.Stmt) → L.Ans q → Prop} {a : L.Ans q} (hk : E.Keeps i ctx I) (h : E.Vouches i ctx I ok)
    (hd : I d) (ha : E.ask i ctx q n d k = some (e, .ok a)) : ok e q a := by
  induction n generalizing d k with
  | zero => cases ha
  | succ n ih =>
    simp only [Engine.ask] at ha
    split at ha
    · cases ha
    · cases ha
    · rename_i d₁ k₁ ht
      exact ih (hk.more hd ht) ha
    · rename_i d₁ b ht
      cases ha
      exact h.answer hd ht

theorem Prompt.ask {left : (q : L.Stmt) → E.Cursor → Nat} (hk : E.Keeps i ctx I) (h : E.Prompt i ctx I left) (hd : I d)
    (hn : left q k < n) : ∃ x, E.ask i ctx q n d k = some x := by
  induction n generalizing d k with
  | zero => exact absurd hn (Nat.not_lt_zero _)
  | succ n ih =>
    simp only [Engine.ask]
    cases ht : E.resume d i ctx q k with
    | wait => exact absurd ht (h.turn q k hd)
    | refuse r => exact ⟨_,rfl⟩
    | more d₁ k₁ => exact ih (hk.more hd ht) (Nat.lt_of_lt_of_le (h.fewer hd ht) (Nat.le_of_lt_succ hn))
    | answer d₁ a => exact ⟨_,rfl⟩

end Engine

namespace Script
variable {E : Engine L ι C D} {i : ι} {ctx : C} {I : D → Prop} {R : D → D → Prop} {n : Nat} {d d' e : D}

/-- What the script gives back has `P`, if every answer it is given is `ok`. A refusal ends it. -/
def Yields (ok : (q : L.Stmt) → L.Ans q → Prop) (P : α → Prop) : Script L ε α → Prop
  | .done a => P a
  | .fail _ => True
  | .exec q next => ∀ a, ok q a → (next (.ok a)).Yields ok P

theorem Yields.bind {ok : (q : L.Stmt) → L.Ans q → Prop} {P : α → Prop} {Q : β → Prop} {x : Script L ε α}
    {f : α → Script L ε β} (hx : x.Yields ok P) (hf : ∀ a, P a → (f a).Yields ok Q) : (x.bind f).Yields ok Q := by
  induction x with
  | done a => exact hf a hx
  | fail e => trivial
  | exec q next ih => exact fun a ha => ih (.ok a) (hx a ha)

theorem yields_query {ok : (q : L.Stmt) → L.Ans q → Prop} {q : L.Stmt} {thrown : L.Refusal → ε} :
    (query q thrown).Yields ok (ok q) := fun _ h => h

/-- Nothing is asked of the answers for nothing. -/
theorem yields_true {ok : (q : L.Stmt) → L.Ans q → Prop} (x : Script L ε α) : x.Yields ok fun _ => True := by
  induction x with
  | done a => trivial
  | fail e => trivial
  | exec q next ih => exact fun a _ => ih (.ok a)

theorem Yields.rethrow {ok : (q : L.Stmt) → L.Ans q → Prop} {P : α → Prop} {g : ε → ε} {x : Script L ε α}
    (hx : x.Yields ok P) : (x.rethrow g).Yields ok P := by
  induction x with
  | done a => exact hx
  | fail e => trivial
  | exec q next ih => exact fun a ha => ih (.ok a) (hx a ha)

/-- A transaction does the same on two databases that its statements cannot tell apart. -/
theorem alone_lockstep {Q : D → D → Prop} {x : Except (Option ε) α} (hk : E.Keeps i ctx I) (h : E.Lockstep i ctx I R)
    (hcommit : ∀ d d', I d → I d' → R d d' → Q (E.commit d i) (E.commit d' i))
    (hroll : ∀ d d', I d → I d' → R d d' → Q (E.rollback d i) (E.rollback d' i)) {p : Script L ε α} (hd : I d) (hd' : I d')
    (hr : R d d') (hp : p.alone E i ctx n d = some (e, x)) :
    ∃ e', p.alone E i ctx n d' = some (e', x) ∧ Q e e' := by
  induction p generalizing d d' with
  | done a =>
    cases hp
    exact ⟨_,rfl,hcommit d d' hd hd' hr⟩
  | fail r =>
    cases hp
    exact ⟨_,rfl,hroll d d' hd hd' hr⟩
  | exec q next ih =>
    have hstart := h.start q hd hd' hr
    simp only [alone] at hp
    split at hp
    · cases hp
    · rename_i d₁ a hask
      obtain ⟨d₁',hask',hr₁⟩ := h.ask hk hd hd' hr hask
      rw [hstart] at hask'
      obtain ⟨e',he',hQ⟩ := ih (.ok a) (hk.ask hd hask) (hk.ask hd' hask') hr₁ hp
      exact ⟨e',(alone_of_answer hask').trans he',hQ⟩
    · rename_i d₁ r hask
      cases hp
      obtain ⟨d₁',hask',hr₁⟩ := h.ask hk hd hd' hr hask
      rw [hstart] at hask'
      exact ⟨_,alone_of_refusal hask',hroll d₁ d₁' (hk.ask hd hask) (hk.ask hd' hask') hr₁⟩

/-- A transaction that never has to wait comes to its end. -/
theorem alone_total {left : (q : L.Stmt) → E.Cursor → Nat} (hk : E.Keeps i ctx I) (h : E.Prompt i ctx I left)
    (p : Script L ε α) (hd : I d) : ∃ n x, p.alone E i ctx n d = some x := by
  induction p generalizing d with
  | done a => exact ⟨0,_,rfl⟩
  | fail e => exact ⟨0,_,rfl⟩
  | exec q next ih =>
    obtain ⟨⟨d₁,r⟩,hask⟩ := h.ask hk hd (Nat.lt_succ_self (left q (E.start d i ctx q)))
    cases r with
    | error r => exact ⟨_,_,alone_of_refusal hask⟩
    | ok a =>
      obtain ⟨n,x,hx⟩ := ih (.ok a) (hk.ask hd hask)
      refine ⟨max (left q (E.start d i ctx q) + 1) n,x,?_⟩
      rw [alone_of_answer (Engine.ask_mono hask (Nat.le_max_left ..))]
      exact alone_mono hx (Nat.le_max_right ..)

/-- A transaction that commits gives back what its answers vouch for. -/
theorem alone_yields {ok : D → (q : L.Stmt) → L.Ans q → Prop} {a : α} (hk : E.Keeps i ctx I) (h : E.Vouches i ctx I ok)
    {p : Script L ε α} (hd : I d) (hp : p.alone E i ctx n d = some (e, .ok a)) :
    ∃ d₁, I d₁ ∧ e = E.commit d₁ i ∧ (∀ q b, ok d q b → ok d₁ q b) ∧ ∀ P, p.Yields (ok d₁) P → P a := by
  induction p generalizing d with
  | done b =>
    cases hp
    exact ⟨d,hd,rfl,fun _ _ h => h,fun _ h => h⟩
  | fail r => cases hp
  | exec q next ih =>
    simp only [alone] at hp
    split at hp
    · cases hp
    · rename_i d₁ b hask
      obtain ⟨d₂,hd₂,he,hok,hP⟩ := ih (.ok b) (hk.ask hd hask) hp
      have hlasts : ∀ q' b', ok d q' b' → ok d₁ q' b' := fun q' b' hb' => ((h.lasts q' b').ask ⟨hd,hb'⟩ hask).2
      exact ⟨d₂,hd₂,he,fun q' b' hb' => hok q' b' (hlasts q' b' hb'),fun P hy => hP P (hy b (hok q b (h.ask hk hd hask)))⟩
    · cases hp

end Script
end Nivara.Transactions
