import Mathlib.Data.List.Basic

/-! Runs of a partial step function. Every step of a run is taken from a state
that admits it, so a condition on the environment is a condition on single steps. -/
namespace Nivara.Transactions

variable {σ α : Type} {step : σ → α → Option σ} {ok : σ → α → Prop}

/-- The states reached from `s` by a list of actions, each enabled and each
admitted by `ok` in the state before it. -/
inductive Run (step : σ → α → Option σ) (ok : σ → α → Prop) (s : σ) : List α → σ → Prop
  | nil : Run step ok s [] s
  | snoc {acts : List α} {a : α} {t u : σ} : Run step ok s acts t → ok t a → step t a = some u →
      Run step ok s (acts ++ [a]) u

/-- No condition on the environment: every enabled step may be taken. -/
def Always (_ : σ) (_ : α) : Prop := True

instance (s : σ) (a : α) : Decidable (Always s a) := inferInstanceAs (Decidable True)

/-- The invariant rule: what holds initially and is kept by every admitted step
holds in every state of every run. -/
theorem Run.invariant {I : σ → Prop} {s t : σ} {acts : List α} (hr : Run step ok s acts t)
    (hs : I s) (hstep : ∀ t a u, I t → ok t a → step t a = some u → I u) : I t := by
  induction hr with
  | nil => exact hs
  | snoc _ hok hst ih => exact hstep _ _ _ ih hok hst

theorem Run.append {s t u : σ} {as bs : List α} (ha : Run step ok s as t)
    (hb : Run step ok t bs u) : Run step ok s (as ++ bs) u := by
  induction hb with
  | nil => simpa using ha
  | snoc _ hok hst ih =>
    rw [← List.append_assoc]
    exact .snoc ih hok hst

/-- A condition may be weakened along a run. -/
theorem Run.mono {ok' : σ → α → Prop} {s t : σ} {acts : List α} (hr : Run step ok s acts t)
    (h : ∀ t a, ok t a → ok' t a) : Run step ok' s acts t := by
  induction hr with
  | nil => exact .nil
  | snoc _ hok hst ih => exact .snoc ih (h _ _ hok) hst

def exec (step : σ → α → Option σ) (ok : σ → α → Prop) [∀ s a, Decidable (ok s a)] :
    σ → List α → Option σ
  | s, [] => some s
  | s, a :: acts => if ok s a then (step s a).bind fun t => exec step ok t acts else none

/-- Executed action lists are runs. -/
theorem Run.of_exec [∀ s a, Decidable (ok s a)] {s t : σ} {acts : List α}
    (h : exec step ok s acts = some t) : Run step ok s acts t := by
  induction acts generalizing s with
  | nil => cases h; exact .nil
  | cons a acts ih =>
    simp only [exec] at h
    split at h
    · rename_i hok
      obtain ⟨u,hu,hrest⟩ := Option.bind_eq_some_iff.mp h
      exact (Run.snoc .nil hok hu).append (ih hrest)
    · cases h

/-- A run found by evaluation, with what was evaluated of its last state. -/
theorem exec_any [∀ s a, Decidable (ok s a)] {s : σ} {acts : List α} {p : σ → Bool}
    (h : (exec step ok s acts).any p = true) : ∃ t, Run step ok s acts t ∧ p t = true := by
  obtain ⟨t,ht,hp⟩ := (Option.any_eq_true _ _).mp h
  exact ⟨t,Run.of_exec ht,hp⟩

end Nivara.Transactions
