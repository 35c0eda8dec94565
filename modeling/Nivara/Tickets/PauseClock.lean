import Mathlib.Order.Interval.Finset.Nat
import Nivara.Tickets.StateMachine

/-! The resolution clock against the Ticket's own timeline. The accumulator of the row is
compared with the time the Ticket has really spent running, counted from its transitions. -/
namespace Nivara.Tickets

/-- The state at the instant `t`, from the transitions so far; a Ticket is born `open`. -/
def stateAt (log : List (Int × TicketState)) (t : Int) : TicketState :=
  ((log.filter (·.1 ≤ t)).getLast?.map Prod.snd).getD .opened

/-- The milliseconds from `createdAt` to `at'` in which the state was `open` or `on_hold`. -/
def runningMs (createdAt : Int) (log : List (Int × TicketState)) (at' : Int) : Int :=
  ((Finset.range (at' - createdAt).toNat).filter fun n : Nat =>
    stateAt log (createdAt + n) = .opened ∨ stateAt log (createdAt + n) = .onHold).card

/-- The histories of a Ticket: its birth with the columns' defaults, then updates the trigger
accepts, none of which assigns the columns of the clock, at instants that never decrease.
`log` lists its transitions and `last` is the instant of the latest update. -/
inductive History (ticketId : Uuid) : List (Int × TicketState) → Int → Ticket → Prop
  | born {r : Ticket} (state : r.state = .opened) (paused : r.slaPausedMs = 0)
      (pauseStarted : r.slaPauseStartedAt = none) : History ticketId [] r.createdAt r
  | update {log : List (Int × TicketState)} {last now : Int} {old new r : Ticket} {entries : List AuditEntry}
      (before : History ticketId log last old) (later : last ≤ now)
      (paused : new.slaPausedMs = old.slaPausedMs) (pauseStarted : new.slaPauseStartedAt = old.slaPauseStartedAt)
      (created : new.createdAt = old.createdAt)
      (accepted : ticketEnforceTransition ticketId now old new = .ok (r, entries)) :
      History ticketId (if r.state = old.state then log else log ++ [(now, r.state)]) now r

def Ticket.activeElapsedMs (r : Ticket) (at' : Int) : Int :=
  ticketSlaActiveElapsedMs r.createdAt r.slaPausedMs r.slaPauseStartedAt at'

private def balance (r : Ticket) (at' : Int) : Int :=
  at' - r.createdAt - r.slaPausedMs - r.slaPauseStartedAt.elim 0 fun started => at' - started

private theorem running_iff (s : TicketState) : (s = .opened ∨ s = .onHold) ↔ s.stopsClock = false := by
  cases s <;> simp [TicketState.stopsClock]

theorem stateAt_append_of_lt {log : List (Int × TicketState)} {now t : Int} {s : TicketState} (h : t < now) :
    stateAt (log ++ [(now, s)]) t = stateAt log t := by
  have hnow : ¬ now ≤ t := by omega
  simp [stateAt, hnow]

theorem stateAt_append_of_le {log : List (Int × TicketState)} {now t : Int} {s : TicketState} (h : now ≤ t) :
    stateAt (log ++ [(now, s)]) t = s := by
  simp [stateAt, h]

/-- Up to the instant of a transition the timeline is the one before it. -/
theorem runningMs_append {createdAt now at' : Int} {log : List (Int × TicketState)} {s : TicketState} (h : at' ≤ now) :
    runningMs createdAt (log ++ [(now, s)]) at' = runningMs createdAt log at' := by
  unfold runningMs
  congr 2
  refine Finset.filter_congr fun n hn => ?_
  have hlt := Finset.mem_range.mp hn
  rw [stateAt_append_of_lt (by omega)]

/-- While the clock stands still nothing is counted. -/
theorem runningMs_stopped {createdAt from' at' : Int} {log : List (Int × TicketState)} (h : from' ≤ at')
    (hs : ∀ t, from' ≤ t → (stateAt log t).stopsClock = true) : runningMs createdAt log at' = runningMs createdAt log from' := by
  unfold runningMs
  congr 2
  ext n
  simp only [Finset.mem_filter, Finset.mem_range, running_iff]
  constructor
  · rintro ⟨_,hrun⟩
    refine ⟨?_,hrun⟩
    by_contra hlt
    cases (hs (createdAt + n) (by omega)).symm.trans hrun
  · rintro ⟨hn,hrun⟩
    exact ⟨by omega,hrun⟩

/-- While the state stays `s` the clock runs on, or stands still. -/
private theorem runningMs_add {createdAt from' at' : Int} {log : List (Int × TicketState)} {s : TicketState}
    (hc : createdAt ≤ from') (ha : from' ≤ at') (hs : ∀ t, from' ≤ t → stateAt log t = s) :
    runningMs createdAt log at' = runningMs createdAt log from' + if s.stopsClock then 0 else at' - from' := by
  have hsplit : Finset.range (at' - createdAt).toNat =
      Finset.range (from' - createdAt).toNat ∪ Finset.Ico (from' - createdAt).toNat (at' - createdAt).toNat := by
    rw [Finset.range_eq_Ico, Finset.range_eq_Ico, Finset.Ico_union_Ico_eq_Ico (Nat.zero_le _) (by omega)]
  have hdisj : Disjoint (Finset.range (from' - createdAt).toNat) (Finset.Ico (from' - createdAt).toNat (at' - createdAt).toNat) := by
    rw [Finset.range_eq_Ico]
    exact Finset.Ico_disjoint_Ico_consecutive _ _ _
  have hlater : ∀ n ∈ Finset.Ico (from' - createdAt).toNat (at' - createdAt).toNat, stateAt log (createdAt + n) = s := by
    intro n hn
    have hle := (Finset.mem_Ico.mp hn).1
    exact hs _ (by omega)
  unfold runningMs
  rw [hsplit, Finset.filter_union, Finset.card_union_of_disjoint (Finset.disjoint_filter_filter hdisj), Int.natCast_add]
  congr 1
  cases hstop : s.stopsClock with
  | true =>
    rw [Finset.filter_false_of_mem]
    · rfl
    · intro n hn
      simp [running_iff, hlater n hn, hstop]
  | false =>
    rw [Finset.filter_true_of_mem]
    · rw [Nat.card_Ico, if_neg (by decide)]
      omega
    · intro n hn
      simp [running_iff, hlater n hn, hstop]

/-- What the history keeps: the open pause is the current state's, and from the latest
transition on the accumulator and the timeline agree. -/
private structure Kept (log : List (Int × TicketState)) (last : Int) (r : Ticket) : Prop where
  paused : r.slaPauseStartedAt.isSome = r.state.stopsClock
  started : ∀ started, r.slaPauseStartedAt = some started → started ≤ last
  created : r.createdAt ≤ last
  bounded : ∀ e ∈ log, r.createdAt ≤ e.1 ∧ e.1 ≤ last
  current : ∀ t, (∀ e ∈ log, e.1 ≤ t) → stateAt log t = r.state
  agree : ∀ at', r.createdAt ≤ at' → (∀ e ∈ log, e.1 ≤ at') → balance r at' = runningMs r.createdAt log at'

private theorem kept_born {r : Ticket} (hs : r.state = .opened) (hp : r.slaPausedMs = 0)
    (hn : r.slaPauseStartedAt = none) : Kept [] r.createdAt r where
  paused := by rw [hn, hs]; rfl
  started _ h := by rw [hn] at h; cases h
  created := Int.le_refl _
  bounded _ h := by simp at h
  current _ _ := hs.symm
  agree at' ha _ := by
    rw [runningMs_add (Int.le_refl _) ha fun t _ => rfl]
    simp [balance, hp, hn, runningMs, TicketState.stopsClock]

/-- An edit that is no transition touches nothing the clock reads. -/
private theorem kept_edit {log : List (Int × TicketState)} {last now : Int} {old r : Ticket}
    (h : Kept log last old) (hl : last ≤ now) (hc : r.createdAt = old.createdAt) (hs : r.state = old.state)
    (hp : r.slaPausedMs = old.slaPausedMs) (hn : r.slaPauseStartedAt = old.slaPauseStartedAt) : Kept log now r where
  paused := by rw [hn, hs, h.paused]
  started started hst := by
    have := h.started started (hn ▸ hst)
    omega
  created := by have := h.created; omega
  bounded e he := by
    have := h.bounded e he
    omega
  current t ht := by rw [hs, h.current t ht]
  agree at' ha hlog := by
    rw [hc] at ha ⊢
    rw [← h.agree at' ha hlog]
    simp only [balance, hc, hp, hn]

/-- At the instant of a transition the accumulator reads what it read before it. -/
private theorem balance_transition {now : Int} {old r : Ticket} (hst : ∀ started, old.slaPauseStartedAt = some started → started ≤ now)
    (hc : r.createdAt = old.createdAt)
    (hp : r.slaPausedMs = old.slaPauseStartedAt.elim old.slaPausedMs fun started => old.slaPausedMs + max 0 (now - started))
    (hn : r.slaPauseStartedAt = if r.state.stopsClock then some now else none) (at' : Int) :
    balance r at' = balance old now + if r.state.stopsClock then 0 else at' - now := by
  cases ho : old.slaPauseStartedAt with
  | none =>
    rw [ho, Option.elim_none] at hp
    cases hr : r.state.stopsClock <;> simp [balance, hc, hp, hn, ho, hr] <;> omega
  | some started =>
    have hle := hst started ho
    rw [ho, Option.elim_some, max_eq_right (by omega)] at hp
    cases hr : r.state.stopsClock <;> simp [balance, hc, hp, hn, ho, hr] <;> omega

private theorem kept_transition {log : List (Int × TicketState)} {last now : Int} {old r : Ticket}
    (h : Kept log last old) (hl : last ≤ now) (hc : r.createdAt = old.createdAt)
    (hp : r.slaPausedMs = old.slaPauseStartedAt.elim old.slaPausedMs fun started => old.slaPausedMs + max 0 (now - started))
    (hn : r.slaPauseStartedAt = if r.state.stopsClock then some now else none) :
    Kept (log ++ [(now, r.state)]) now r where
  paused := by rw [hn]; cases r.state.stopsClock <;> rfl
  started started hst := by
    rw [hn] at hst
    split at hst
    · exact Int.le_of_eq (Option.some.inj hst).symm
    · cases hst
  created := by have := h.created; omega
  bounded e he := by
    have hcreated := h.created
    rcases List.mem_append.mp he with he | he
    · have := h.bounded e he
      omega
    · cases List.mem_singleton.mp he
      exact ⟨by omega,Int.le_refl _⟩
  current t ht := stateAt_append_of_le (ht (now, r.state) (by simp))
  agree at' ha hlog := by
    have hcreated := h.created
    have hnow : now ≤ at' := hlog (now, r.state) (by simp)
    have hbefore : balance old now = runningMs old.createdAt log now :=
      h.agree now (by omega) fun e he => Int.le_trans (h.bounded e he).2 hl
    have hafter : runningMs old.createdAt (log ++ [(now, r.state)]) at' =
        runningMs old.createdAt (log ++ [(now, r.state)]) now + if r.state.stopsClock then 0 else at' - now :=
      runningMs_add (by omega) hnow fun t ht => stateAt_append_of_le ht
    have hstarted : ∀ started, old.slaPauseStartedAt = some started → started ≤ now :=
      fun started ho => Int.le_trans (h.started started ho) hl
    rw [hc, hafter, runningMs_append (Int.le_refl _), ← hbefore]
    exact balance_transition hstarted hc hp hn at'

private theorem kept_of_history {ticketId : Uuid} {log : List (Int × TicketState)} {last : Int} {r : Ticket}
    (h : History ticketId log last r) : Kept log last r := by
  induction h with
  | born hs hp hn => exact kept_born hs hp hn
  | @update log last now old new r entries _ hl hp hn hc hacc ih =>
    have he := enforced_of_ok hacc
    have hcreated := (congrArg Ticket.createdAt he.rest).trans hc
    split
    · rename_i hs
      have hsame := he.state.symm.trans hs
      refine kept_edit ih hl hcreated hs ?_ ?_
      · rw [he.paused, if_pos hsame, hp]
      · rw [he.pauseStarted, if_pos hsame, hn]
    · rename_i hs
      have hmoved := he.state ▸ hs
      refine kept_transition ih hl hcreated ?_ ?_
      · rw [he.paused, if_neg hmoved, hp]
      · rw [he.pauseStarted, if_neg hmoved, hn, he.state]
        cases old.slaPauseStartedAt <;> simp

/-- A Ticket is not younger than what is known of it. -/
theorem History.bounds {ticketId : Uuid} {log : List (Int × TicketState)} {last : Int} {r : Ticket}
    (h : History ticketId log last r) : r.createdAt ≤ last ∧ ∀ e ∈ log, e.1 ≤ last :=
  ⟨(kept_of_history h).created,fun e he => ((kept_of_history h).bounded e he).2⟩

/-- A pause is open exactly while the state stops the clock. -/
theorem History.paused {ticketId : Uuid} {log : List (Int × TicketState)} {last : Int} {r : Ticket}
    (h : History ticketId log last r) : r.slaPauseStartedAt.isSome = r.state.stopsClock :=
  (kept_of_history h).paused

/-- The accumulator is exact: it is open exactly in the states that stop the clock, it reads
the time spent `open` or `on_hold`, it never goes back, and a reopened Ticket goes on from
the figure at which it was resolved. -/
structure ExactClock (ticketId : Uuid) (log : List (Int × TicketState)) (last : Int) (r : Ticket) : Prop where
  paused : r.slaPauseStartedAt ≠ none ↔ r.state = .pending ∨ r.state = .resolved ∨ r.state = .closed
  elapsed : ∀ at', (∀ e ∈ log, e.1 ≤ at') → r.activeElapsedMs at' = runningMs r.createdAt log at'
  mono : ∀ at₁ at₂, (∀ e ∈ log, e.1 ≤ at₁) → at₁ ≤ at₂ → r.activeElapsedMs at₁ ≤ r.activeElapsedMs at₂
  resumes : ∀ now new reopened entries, r.state = .resolved → last ≤ now → new.slaPausedMs = r.slaPausedMs →
    new.slaPauseStartedAt = r.slaPauseStartedAt → new.createdAt = r.createdAt → new.state = .opened →
    ticketEnforceTransition ticketId now r new = .ok (reopened, entries) →
    ∀ at', (∀ e ∈ log, e.1 ≤ at') → reopened.activeElapsedMs now = r.activeElapsedMs at'

private theorem activeElapsedMs_eq (r : Ticket) (at' : Int) : r.activeElapsedMs at' = max 0 (balance r at') := rfl

private theorem elapsed_of_kept {log : List (Int × TicketState)} {last at' : Int} {r : Ticket} (h : Kept log last r)
    (hlog : ∀ e ∈ log, e.1 ≤ at') : r.activeElapsedMs at' = runningMs r.createdAt log at' := by
  by_cases ha : r.createdAt ≤ at'
  · rw [activeElapsedMs_eq, h.agree at' ha hlog, max_eq_right]
    exact Int.natCast_nonneg _
  · -- before its birth a Ticket has had no transition, and nothing is counted on either side
    have hempty : log = [] := by
      refine List.eq_nil_iff_forall_not_mem.mpr fun e he => ha ?_
      exact Int.le_trans (h.bounded e he).1 (hlog e he)
    subst hempty
    have hopened : r.state = .opened := (h.current r.createdAt (by simp)).symm
    have hnone : r.slaPauseStartedAt = none := by
      have := h.paused
      rw [hopened] at this
      simpa [TicketState.stopsClock] using this
    have hzero := h.agree r.createdAt (Int.le_refl _) (by simp)
    have hborn : runningMs r.createdAt [] r.createdAt = 0 := by simp [runningMs]
    have hpast : runningMs r.createdAt [] at' = 0 := by
      have hnat : (at' - r.createdAt).toNat = 0 := by omega
      simp [runningMs, hnat]
    simp only [balance, hnone, Option.elim_none, hborn] at hzero
    simp only [activeElapsedMs_eq, balance, hnone, Option.elim_none, hpast]
    omega

theorem History.elapsed {ticketId : Uuid} {log : List (Int × TicketState)} {last at' : Int} {r : Ticket}
    (h : History ticketId log last r) (hlog : ∀ e ∈ log, e.1 ≤ at') : r.activeElapsedMs at' = runningMs r.createdAt log at' :=
  elapsed_of_kept (kept_of_history h) hlog

private theorem balance_mono (r : Ticket) {at₁ at₂ : Int} (h : at₁ ≤ at₂) : balance r at₁ ≤ balance r at₂ := by
  unfold balance
  cases r.slaPauseStartedAt with
  | none => simp only [Option.elim_none]; omega
  | some started => simp only [Option.elim_some]; omega

private theorem balance_stopped {r : Ticket} {started : Int} (h : r.slaPauseStartedAt = some started) (at₁ at₂ : Int) :
    balance r at₁ = balance r at₂ := by
  simp only [balance, h, Option.elim_some]
  omega

/-- While a pause is open the figure is the same at every instant. -/
theorem Ticket.activeElapsedMs_stopped {r : Ticket} {started : Int} (h : r.slaPauseStartedAt = some started) (at₁ at₂ : Int) :
    r.activeElapsedMs at₁ = r.activeElapsedMs at₂ := by
  rw [activeElapsedMs_eq, activeElapsedMs_eq, balance_stopped h at₁ at₂]

/-- For every history of a Ticket the pause accumulator is exact. -/
theorem exactClock_of_history {ticketId : Uuid} {log : List (Int × TicketState)} {last : Int} {r : Ticket}
    (h : History ticketId log last r) : ExactClock ticketId log last r := by
  have hk := kept_of_history h
  refine ⟨?_,fun at' => elapsed_of_kept hk,?_,?_⟩
  · have hp := hk.paused
    cases hn : r.slaPauseStartedAt <;> cases hs : r.state <;> simp_all [TicketState.stopsClock]
  · intro at₁ at₂ _ hle
    exact max_le_max_left 0 (balance_mono r hle)
  · intro now new reopened entries hresolved hl hp hn hc hopened hacc at' _
    have he := enforced_of_ok hacc
    have hmoved : new.state ≠ r.state := by rw [hopened, hresolved]; decide
    obtain ⟨started,hstarted⟩ := Option.isSome_iff_exists.mp (hk.paused.trans (by rw [hresolved]; rfl))
    have hbound : ∀ s, r.slaPauseStartedAt = some s → s ≤ now := fun s hs => Int.le_trans (hk.started s hs) hl
    have hnow : balance reopened now = balance r now := by
      rw [balance_transition hbound]
      · rw [he.state, hopened]; simp [TicketState.stopsClock]
      · exact (congrArg Ticket.createdAt he.rest).trans hc
      · rw [he.paused, if_neg hmoved, hp]
      · rw [he.pauseStarted, if_neg hmoved, he.state, hopened, hstarted]
        simp [TicketState.stopsClock]
    rw [activeElapsedMs_eq, activeElapsedMs_eq, hnow, balance_stopped hstarted now at']

/-- A history goes on with a transition that the trigger accepts. -/
theorem history_move {log : List (Int × TicketState)} {last : Int} {r r' : Ticket} {entries : List AuditEntry}
    (now : Int) (state : TicketState) (h : History 0 log last r) (hl : last ≤ now)
    (hacc : ticketEnforceTransition 0 now r { r with state := state } = .ok (r', entries)) (hs : r'.state ≠ r.state) :
    History 0 (log ++ [(now, r'.state)]) now r' := by
  have hnext : History 0 (if r'.state = r.state then log else log ++ [(now, r'.state)]) now r' := by
    refine .update h hl ?_ ?_ ?_ hacc <;> rfl
  rwa [if_neg hs] at hnext

/-- Ten milliseconds of work, a wait on the customer that ends in a resolution, and a reopening. -/
theorem exactClock_of_reopened :
    ∃ r, r.state = .opened ∧ r.activeElapsedMs 47 = 17 ∧
      ExactClock 0 [(10, .pending), (20, .resolved), (40, .opened)] 40 r := by
  have hborn := @History.born 0 (Ticket.fresh 0 "printer" 1 .portal none none 0) rfl rfl rfl
  have hpending := history_move 10 .pending hborn (by decide) rfl (by decide)
  have hresolved := history_move 20 .resolved hpending (by decide) rfl (by decide)
  have hreopened := history_move 40 .opened hresolved (by decide) rfl (by decide)
  refine ⟨_,?_,?_,exactClock_of_history hreopened⟩
  · rfl
  · rfl

end Nivara.Tickets
