import Mathlib.Data.List.Induction

/-! What an idempotency key is for: a slot that one claim holds at a time. The events are
the ones a caller can tell apart, and `Accepts` says when each may happen. -/
namespace Nivara.Idempotency

/-- What a completed request left behind. A `body` of `none` is `undefined`. -/
structure IdempotentResponse (β : Type) where
  code : Nat
  body : Option β
  deriving DecidableEq, Repr

/-- A held key: whose claim it is, under which request, until when, and what it answered. -/
structure Slot (ι β : Type) where
  claim : ι
  requestHash : String
  expiresAt : Int
  response : Option (Option (IdempotentResponse β))

inductive Event (ι β : Type) where
  | fresh (claim : ι) (requestHash : String) (expiresAt : Int)
  | completed (caller claim : ι) (response : Option (IdempotentResponse β))
  | released (caller claim : ι)
  | lapsed (claim : ι) (now : Int)
  | swept (claim : ι) (now : Int)
  | replayed (caller claim : ι) (response : Option (IdempotentResponse β))
  | mismatched (caller claim : ι) (requestHash : String)
  | deferred (caller : ι)
  deriving DecidableEq

variable {ι β : Type}

def Event.isRead : Event ι β → Bool
  | .replayed _ _ _ => true
  | .mismatched _ _ _ => true
  | .deferred _ => true
  | _ => false

/-- One event of the slot, from the state before it to the state after it. -/
inductive Accepts : Option (Slot ι β) → Event ι β → Option (Slot ι β) → Prop
  | fresh {c h x} : Accepts none (.fresh c h x) (some ⟨c, h, x, none⟩)
  | completed {r b resp} (h : r.response = none) :
      Accepts (some r) (.completed b r.claim resp) (some { r with response := some resp })
  | released {r b} (h : r.response = none) : Accepts (some r) (.released b r.claim) none
  | lapsed {r now} (h : r.expiresAt ≤ now) : Accepts (some r) (.lapsed r.claim now) none
  | swept {r now} (h : r.expiresAt ≤ now) : Accepts (some r) (.swept r.claim now) none
  | replayed {r b resp} (h : r.response = some resp) : Accepts (some r) (.replayed b r.claim resp) (some r)
  | mismatched {r b hash} (h : r.requestHash ≠ hash) : Accepts (some r) (.mismatched b r.claim hash) (some r)
  | deferred {s b} : Accepts s (.deferred b) s

/-- The histories of a key, with the slot they end in. -/
inductive History : List (Event ι β) → Option (Slot ι β) → Prop
  | nil : History [] none
  | snoc {es e s s'} : History es s → Accepts s e s' → History (es ++ [e]) s'

def Ends (claim : ι) (expiresAt : Int) (e : Event ι β) : Prop :=
  (∃ b, e = .released b claim) ∨ (∃ now, e = .swept claim now ∧ expiresAt ≤ now) ∨
    ∃ now, e = .lapsed claim now ∧ expiresAt ≤ now

namespace History

theorem snoc_inv {es : List (Event ι β)} {e : Event ι β} {s' : Option (Slot ι β)}
    (h : History (es ++ [e]) s') : ∃ s, History es s ∧ Accepts s e s' := by
  generalize hes : es ++ [e] = l at h
  cases h with
  | nil => simp at hes
  | snoc h ha =>
    obtain ⟨rfl,he⟩ := List.append_inj' hes rfl
    cases he
    exact ⟨_,h,ha⟩

/-- A history up to an event, and the slot that accepted it. -/
theorem before {es es' : List (Event ι β)} {e : Event ι β} {s : Option (Slot ι β)}
    (h : History (es ++ e :: es') s) : ∃ t t', History es t ∧ Accepts t e t' := by
  induction es' using List.reverseRecOn generalizing s with
  | nil =>
    obtain ⟨t,ht,ha⟩ := h.snoc_inv
    exact ⟨t,s,ht,ha⟩
  | append_singleton es' e' ih =>
    rw [← List.cons_append, ← List.append_assoc] at h
    obtain ⟨t,ht,_⟩ := h.snoc_inv
    exact ih ht

/-- After a claim the slot is that claim's, until an event ends it. -/
theorem held_or_ended {l₁ l₂ : List (Event ι β)} {c : ι} {hash : String} {x : Int} {s : Option (Slot ι β)}
    (h : History (l₁ ++ Event.fresh c hash x :: l₂) s) :
    (∃ r, s = some r ∧ r.claim = c ∧ r.requestHash = hash ∧ r.expiresAt = x) ∨ ∃ e ∈ l₂, Ends c x e := by
  induction l₂ using List.reverseRecOn generalizing s with
  | nil =>
    obtain ⟨t,_,ha⟩ := h.snoc_inv
    cases ha
    exact .inl ⟨_,rfl,rfl,rfl,rfl⟩
  | append_singleton l₂ e ih =>
    rw [← List.cons_append, ← List.append_assoc] at h
    obtain ⟨t,ht,ha⟩ := h.snoc_inv
    rcases ih ht with ⟨r,rfl,rfl,rfl,rfl⟩ | ⟨e',he',hends⟩
    · cases ha with
      | completed _ => exact .inl ⟨_,rfl,rfl,rfl,rfl⟩
      | released _ => exact .inr ⟨_,List.mem_concat_self,.inl ⟨_,rfl⟩⟩
      | lapsed hx => exact .inr ⟨_,List.mem_concat_self,.inr (.inr ⟨_,rfl,hx⟩)⟩
      | swept hx => exact .inr ⟨_,List.mem_concat_self,.inr (.inl ⟨_,rfl,hx⟩)⟩
      | replayed _ => exact .inl ⟨_,rfl,rfl,rfl,rfl⟩
      | mismatched _ => exact .inl ⟨_,rfl,rfl,rfl,rfl⟩
      | deferred => exact .inl ⟨_,rfl,rfl,rfl,rfl⟩
    · exact .inr ⟨e',List.mem_append_left _ he',hends⟩

/-- Two claims are separated by the end of the first. -/
theorem exclusive {l₁ l₂ l₃ : List (Event ι β)} {c₁ c₂ : ι} {h₁ h₂ : String} {x₁ x₂ : Int}
    {s : Option (Slot ι β)} (h : History (l₁ ++ Event.fresh c₁ h₁ x₁ :: l₂ ++ Event.fresh c₂ h₂ x₂ :: l₃) s) :
    ∃ e ∈ l₂, Ends c₁ x₁ e := by
  obtain ⟨t,t',ht,ha⟩ := h.before
  cases ha
  rcases ht.held_or_ended with ⟨r,hr,_⟩ | hends
  · cases hr
  · exact hends

/-- The slot that is held was claimed once, and everything since then left it in place; if it
carries a response, a caller completed it with that response. -/
theorem held {es : List (Event ι β)} {r : Slot ι β} (h : History es (some r)) :
    ∃ l₁ l₂, es = l₁ ++ Event.fresh r.claim r.requestHash r.expiresAt :: l₂ ∧
      (∀ e ∈ l₂, ¬ Ends r.claim r.expiresAt e) ∧
      ∀ resp, r.response = some resp → ∃ b, .completed b r.claim resp ∈ l₂ := by
  generalize hs : some r = s at h
  induction h generalizing r with
  | nil => cases hs
  | snoc h ha ih =>
    rename_i es e s s'
    -- every event that keeps the slot adds itself to the part since the claim
    have keep : ∀ r₀ : Slot ι β, s = some r₀ → r₀.claim = r.claim → r₀.requestHash = r.requestHash →
        r₀.expiresAt = r.expiresAt → ¬ Ends r.claim r.expiresAt e →
        (∀ resp, r.response = some resp → r₀.response = some resp ∨ ∃ b, e = .completed b r.claim resp) →
        ∃ l₁ l₂, es ++ [e] = l₁ ++ Event.fresh r.claim r.requestHash r.expiresAt :: l₂ ∧
          (∀ e ∈ l₂, ¬ Ends r.claim r.expiresAt e) ∧
          ∀ resp, r.response = some resp → ∃ b, .completed b r.claim resp ∈ l₂ := by
      intro r₀ hr₀ hc hh hx he hresp
      obtain ⟨l₁,l₂,rfl,hl,hl'⟩ := ih hr₀.symm
      refine ⟨l₁,l₂ ++ [e],by rw [hc, hh, hx]; simp,?_,?_⟩
      · intro e' he'
        rcases List.mem_append.mp he' with he' | he'
        · rw [← hc, ← hx]
          exact hl e' he'
        · cases List.mem_singleton.mp he'
          exact he
      · intro resp hr
        rcases hresp resp hr with hr | ⟨b,rfl⟩
        · obtain ⟨b,hb⟩ := hl' resp hr
          exact ⟨b,List.mem_append_left _ (hc ▸ hb)⟩
        · exact ⟨b,by simp⟩
    cases ha with
    | fresh =>
      cases hs
      exact ⟨es,[],rfl,by simp,by simp⟩
    | completed _ =>
      cases hs
      exact keep _ rfl rfl rfl rfl (by simp [Ends]) fun resp hr => .inr ⟨_,by cases hr; rfl⟩
    | released _ => cases hs
    | lapsed _ => cases hs
    | swept _ => cases hs
    | replayed _ =>
      cases hs
      exact keep _ rfl rfl rfl rfl (by simp [Ends]) fun _ hr => .inl hr
    | mismatched _ =>
      cases hs
      exact keep _ rfl rfl rfl rfl (by simp [Ends]) fun _ hr => .inl hr
    | deferred =>
      subst hs
      exact keep _ rfl rfl rfl rfl (by simp [Ends]) fun _ hr => .inl hr

end History
end Nivara.Idempotency
