import Nivara.Transactions.Outline

/-! Rules of pre- and postconditions for parts of scripts. Every assertion is stable, so that the
statements of a script can be taken one after the other as if nobody were beside it. -/
namespace Nivara.Transactions.Regime

variable {L : Language} {ε α β γ ι C D Req W : Type} {E : Engine L ι C D} {world : D → W → Option D}
  {R : Regime E α Req W world} {i : ι} {req : Req} {ctx : C}

/-- What the invariant says is kept by every change of the database, whoever makes it. -/
def Closed (R : Regime E α Req W world) : Prop :=
  ∀ d d', R.inv d → Changes E world (fun _ _ _ _ _ => True) d d' → R.inv d'

def Leads (R : Regime E α Req W world) (i : ι) (req : Req) (ctx : C) (x : Script L ε β) (P : D → Prop)
    (Q : β → D → Prop) : Prop :=
  ∀ f : β → Script L ε α, (∀ b, R.Safe i req ctx (f b) (Q b)) → R.Safe i req ctx (x.bind f) P

theorem stable_and {P Q : D → Prop} (hP : R.Stable i P) (hQ : R.Stable i Q) : R.Stable i fun d => P d ∧ Q d :=
  fun d d' hd hd' hr h => ⟨hP d d' hd hd' hr h.1,hQ d d' hd hd' hr h.2⟩

theorem stable_exists {X : Type} {P : X → D → Prop} (hP : ∀ x, R.Stable i (P x)) : R.Stable i fun d => ∃ x, P x d := by
  rintro d d' hd hd' hr ⟨x,hx⟩
  exact ⟨x,hP x d d' hd hd' hr hx⟩

theorem stable_const (φ : Prop) : R.Stable i fun _ => φ := fun _ _ _ _ _ h => h

/-- A stronger precondition will do. -/
theorem Safe.mono {p : Script L ε α} {P P' : D → Prop} (h : R.Safe i req ctx p P)
    (hP : ∀ d, R.inv d → P' d → P d) : R.Safe i req ctx p P' := by
  cases p with
  | done a => exact fun d hd hP' => h d hd (hP d hd hP')
  | fail e => trivial
  | exec q next =>
    obtain ⟨Q,hQ,hstart,hturns⟩ := h
    exact ⟨Q,hQ,fun d hd hP' => hstart d hd (hP d hd hP'),hturns⟩

/-- What the precondition says of no database in particular may be assumed. -/
theorem safe_pure {φ : Prop} {p : Script L ε α} {P : D → Prop} (h : φ → R.Safe i req ctx p P) :
    R.Safe i req ctx p fun d => φ ∧ P d := by
  by_cases hφ : φ
  · exact (h hφ).mono fun _ _ hd => hd.2
  · cases p with
    | done a => exact fun d _ hd => absurd hd.1 hφ
    | fail e => trivial
    | exec q next =>
      exact ⟨fun _ _ => False,fun _ => stable_const False,fun d _ hd => hφ hd.1,fun d k _ hQ => hQ.elim⟩

/-- A precondition that holds for one of many. -/
theorem safe_exists {X : Type} {p : Script L ε α} {P : X → D → Prop} (h : ∀ x, R.Safe i req ctx p (P x)) :
    R.Safe i req ctx p fun d => ∃ x, P x d := by
  cases p with
  | done a =>
    rintro d hd ⟨x,hx⟩
    exact h x d hd hx
  | fail e => trivial
  | exec q next =>
    choose Q hQ hstart hturns using h
    refine ⟨fun k d => ∃ x, Q x k d,fun k => stable_exists fun x => hQ x k,?_,?_⟩
    · rintro d hd ⟨x,hx⟩
      exact ⟨x,hstart x d hd hx⟩
    · rintro d k hd ⟨x,hx⟩ hterm
      obtain ⟨hmore,hanswer⟩ := hturns x d k hd hx hterm
      exact ⟨fun d' k' ht => ⟨(hmore d' k' ht).1,x,(hmore d' k' ht).2⟩,hanswer⟩

theorem leads_done {b : β} {P : D → Prop} {Q : β → D → Prop} (h : ∀ d, R.inv d → P d → Q b d) :
    R.Leads (ε := ε) i req ctx (.done b) P Q := fun _ hf => (hf b).mono h

theorem leads_fail {e : ε} {P : D → Prop} {Q : β → D → Prop} : R.Leads i req ctx (.fail e) P Q := fun _ _ => trivial

theorem leads_bind {x : Script L ε β} {f : β → Script L ε γ} {P : D → Prop} {Q : β → D → Prop} {T : γ → D → Prop}
    (hx : R.Leads i req ctx x P Q) (hf : ∀ b, R.Leads i req ctx (f b) (Q b) T) : R.Leads i req ctx (x.bind f) P T := by
  intro g hg
  rw [Script.bind_assoc]
  exact hx _ fun b => hf b g hg

theorem Leads.mono {x : Script L ε β} {P P' : D → Prop} {Q : β → D → Prop} (h : R.Leads i req ctx x P Q)
    (hP : ∀ d, R.inv d → P' d → P d) : R.Leads i req ctx x P' Q := fun f hf => (h f hf).mono hP

/-- A whole request, whose result may be committed. -/
theorem Leads.safe {x : Script L ε α} {P : D → Prop} {Q : α → D → Prop} (h : R.Leads i req ctx x P Q)
    (hdone : ∀ a, R.Safe (ε := ε) i req ctx (.done a) (Q a)) : R.Safe i req ctx x P := by
  have hx := h .done hdone
  rwa [Script.bind_done] at hx

theorem leads_pure {φ : Prop} {x : Script L ε β} {P : D → Prop} {Q : β → D → Prop} (h : φ → R.Leads i req ctx x P Q) :
    R.Leads i req ctx x (fun d => φ ∧ P d) Q := fun f hf => safe_pure fun hφ => h hφ f hf

theorem leads_exists {X : Type} {x : Script L ε β} {P : X → D → Prop} {Q : β → D → Prop}
    (h : ∀ a, R.Leads i req ctx x (P a) Q) : R.Leads i req ctx x (fun d => ∃ a, P a d) Q :=
  fun f hf => safe_exists fun a => h a f hf

/-- A statement, with what is done with its answer: `A` holds of its cursor while it is under way, and
`T` of its answer; each turn keeps the invariant. A refusal ends the transaction. -/
theorem leads_exec {q : L.Stmt} {next : Except L.Refusal (L.Ans q) → Script L ε β} {P : D → Prop} {A : E.Cursor → D → Prop}
    {T : L.Ans q → D → Prop} {Q : β → D → Prop} (hA : ∀ k, R.Stable i (A k)) (hT : ∀ a, R.Stable i (T a))
    (hstart : ∀ d, R.inv d → P d → A (E.start d i ctx q) d)
    (hmore : ∀ d k d' k', R.inv d → A k d → R.terms.resume d i req ctx q k = true → E.resume d i ctx q k = .more d' k' →
      R.inv d' ∧ A k' d')
    (hanswer : ∀ d k d' a, R.inv d → A k d → R.terms.resume d i req ctx q k = true →
      E.resume d i ctx q k = .answer d' a → R.inv d' ∧ T a d')
    (hnext : ∀ a, R.Leads i req ctx (next (.ok a)) (T a) Q) : R.Leads i req ctx (.exec q next) P Q := by
  intro f hf
  refine ⟨A,hA,hstart,fun d k hd hAk hterm => ⟨fun d' k' ht => hmore d k d' k' hd hAk hterm ht,fun d' a ht => ?_⟩⟩
  obtain ⟨hd',hTa⟩ := hanswer d k d' a hd hAk hterm ht
  exact ⟨hd',T a,hT a,hTa,hnext a f hf⟩

/-- A statement whose answer is the result. -/
theorem leads_guarded {q : L.Stmt} {thrown : L.Refusal → ε} {P : D → Prop} {A : E.Cursor → D → Prop}
    {Q : L.Ans q → D → Prop} (hA : ∀ k, R.Stable i (A k)) (hQ : ∀ a, R.Stable i (Q a))
    (hstart : ∀ d, R.inv d → P d → A (E.start d i ctx q) d)
    (hmore : ∀ d k d' k', R.inv d → A k d → R.terms.resume d i req ctx q k = true → E.resume d i ctx q k = .more d' k' →
      R.inv d' ∧ A k' d')
    (hanswer : ∀ d k d' a, R.inv d → A k d → R.terms.resume d i req ctx q k = true →
      E.resume d i ctx q k = .answer d' a → R.inv d' ∧ Q a d') :
    R.Leads i req ctx (.query q thrown) P Q :=
  leads_exec hA hQ hstart hmore hanswer fun _ => leads_done fun _ _ h => h

/-- A statement, where every change keeps the invariant. -/
theorem leads_turns (hclosed : R.Closed) {q : L.Stmt} {thrown : L.Refusal → ε} {P : D → Prop} {A : E.Cursor → D → Prop}
    {Q : L.Ans q → D → Prop} (hA : ∀ k, R.Stable i (A k)) (hQ : ∀ a, R.Stable i (Q a))
    (hstart : ∀ d, R.inv d → P d → A (E.start d i ctx q) d)
    (hmore : ∀ d k d' k', R.inv d → A k d → R.terms.resume d i req ctx q k = true → E.resume d i ctx q k = .more d' k' →
      A k' d')
    (hanswer : ∀ d k d' a, R.inv d → A k d → R.terms.resume d i req ctx q k = true →
      E.resume d i ctx q k = .answer d' a → Q a d') :
    R.Leads i req ctx (.query q thrown) P Q := by
  refine leads_guarded hA hQ hstart (fun d k d' k' hd hAk hterm ht => ?_) fun d k d' a hd hAk hterm ht => ?_
  · exact ⟨hclosed d d' hd (.more trivial ht),hmore d k d' k' hd hAk hterm ht⟩
  · exact ⟨hclosed d d' hd (.answer trivial ht),hanswer d k d' a hd hAk hterm ht⟩

/-- A statement that answers in one turn. -/
theorem leads_query (hclosed : R.Closed) {q : L.Stmt} {thrown : L.Refusal → ε} {P : D → Prop} {Q : L.Ans q → D → Prop}
    (hP : R.Stable i P) (hQ : ∀ a, R.Stable i (Q a)) (hone : ∀ d k d' k', E.resume d i ctx q k ≠ .more d' k')
    (hanswer : ∀ d k d' a, R.inv d → P d → R.terms.resume d i req ctx q k = true →
      E.resume d i ctx q k = .answer d' a → Q a d') :
    R.Leads i req ctx (.query q thrown) P Q := by
  refine leads_turns hclosed (A := fun _ => P) (fun _ => hP) hQ (fun _ _ h => h) ?_ hanswer
  intro d k d' k' _ _ _ ht
  exact absurd ht (hone d k d' k')

/-- Nothing is asked of an error, so it may be thrown as another one. -/
private theorem safe_rethrow {x : Script L ε β} {g : ε → ε} {f : β → Script L ε α} {P : D → Prop}
    (h : R.Safe i req ctx (x.bind f) P) : R.Safe i req ctx ((x.rethrow g).bind f) P := by
  induction x generalizing P with
  | done b => exact h
  | fail e => trivial
  | exec q next ih =>
    obtain ⟨Q,hQ,hstart,hturns⟩ := h
    refine ⟨Q,hQ,hstart,fun d k hd hk hterm => ?_⟩
    obtain ⟨hmore,hanswer⟩ := hturns d k hd hk hterm
    refine ⟨hmore,fun d' a ht => ?_⟩
    obtain ⟨hd',P',hP',hd'P,hsafe⟩ := hanswer d' a ht
    exact ⟨hd',P',hP',hd'P,ih (.ok a) hsafe⟩

theorem Leads.rethrow {x : Script L ε β} {g : ε → ε} {P : D → Prop} {Q : β → D → Prop} (h : R.Leads i req ctx x P Q) :
    R.Leads i req ctx (x.rethrow g) P Q := fun f hf => safe_rethrow (h f hf)

/-- A script all of whose statements, in turns that the terms admit, keep the invariant and one assertion. -/
theorem safe_of_admitted {P : D → Prop} {ok : L.Stmt → Prop} (hP : R.Stable i P)
    (hmore : ∀ q d k d' k', ok q → E.Reaches i ctx q k → R.inv d → P d → R.terms.resume d i req ctx q k = true →
      E.resume d i ctx q k = .more d' k' → R.inv d' ∧ P d')
    (hanswer : ∀ q d k d' a, ok q → E.Reaches i ctx q k → R.inv d → P d → R.terms.resume d i req ctx q k = true →
      E.resume d i ctx q k = .answer d' a → R.inv d' ∧ P d')
    (hpost : ∀ a d, R.inv d → P d → R.terms.commit d i req ctx a = true → R.inv (E.commit d i) ∧ R.post i req ctx a d)
    {p : Script L ε α} (hp : p.Only ok) : R.Safe i req ctx p P := by
  induction p with
  | done a => exact fun d hd hPd hterm => hpost a d hd hPd hterm
  | fail e => trivial
  | exec q next ih =>
    refine ⟨fun k d => E.Reaches i ctx q k ∧ P d,fun k => stable_and (stable_const _) hP,fun d _ h => ⟨.start d,h⟩,
      fun d k hd hPd hterm => ⟨fun d' k' ht => ?_,fun d' a ht => ?_⟩⟩
    · obtain ⟨hd',hPd'⟩ := hmore q d k d' k' hp.1 hPd.1 hd hPd.2 hterm ht
      exact ⟨hd',.more hPd.1 ht,hPd'⟩
    · obtain ⟨hd',hPd'⟩ := hanswer q d k d' a hp.1 hPd.1 hd hPd.2 hterm ht
      exact ⟨hd',P,hP,hPd',ih (.ok a) (hp.2 (.ok a))⟩

/-- A script all of whose statements keep the invariant and one assertion. -/
theorem safe_of_only {P : D → Prop} {ok : L.Stmt → Prop} (hP : R.Stable i P)
    (hmore : ∀ q d k d' k', ok q → E.Reaches i ctx q k → R.inv d → P d → E.resume d i ctx q k = .more d' k' → R.inv d' ∧ P d')
    (hanswer : ∀ q d k d' a, ok q → E.Reaches i ctx q k → R.inv d → P d → E.resume d i ctx q k = .answer d' a → R.inv d' ∧ P d')
    (hpost : ∀ a d, R.inv d → P d → R.terms.commit d i req ctx a = true → R.inv (E.commit d i) ∧ R.post i req ctx a d)
    {p : Script L ε α} (hp : p.Only ok) : R.Safe i req ctx p P :=
  safe_of_admitted hP (fun q d k d' k' hq hk hd hPd _ ht => hmore q d k d' k' hq hk hd hPd ht)
    (fun q d k d' a hq hk hd hPd _ ht => hanswer q d k d' a hq hk hd hPd ht) hpost hp

/-- A script all of whose statements keep one assertion, where every change keeps the invariant. -/
theorem safe_of_kept (hclosed : R.Closed) {P : D → Prop} {ok : L.Stmt → Prop} (hP : R.Stable i P)
    (hmore : ∀ q d k d' k', ok q → R.inv d → P d → E.resume d i ctx q k = .more d' k' → P d')
    (hanswer : ∀ q d k d' a, ok q → R.inv d → P d → E.resume d i ctx q k = .answer d' a → P d')
    (hpost : ∀ a d, R.inv d → P d → R.post i req ctx a d) {p : Script L ε α} (hp : p.Only ok) :
    R.Safe i req ctx p P := by
  refine safe_of_only hP (fun q d k d' k' hq _ hd hPd ht => ?_) (fun q d k d' a hq _ hd hPd ht => ?_) (fun a d hd hPd _ => ?_) hp
  · exact ⟨hclosed d d' hd (.more trivial ht),hmore q d k d' k' hq hd hPd ht⟩
  · exact ⟨hclosed d d' hd (.answer trivial ht),hanswer q d k d' a hq hd hPd ht⟩
  · exact ⟨hclosed d _ hd (.commit i),hpost a d hd hPd⟩

end Nivara.Transactions.Regime
