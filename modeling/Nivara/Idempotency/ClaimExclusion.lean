import Nivara.Idempotency.Store

/-! The store refines the slot: its committed statements and its reads, in order, are a
history of the key that ends in the committed row. Mutual exclusion of claims is then a fact
about histories. -/
namespace Nivara.Idempotency
open Transactions

variable {ι β : Type}

def Held.slot (row : Held ι β) : Slot ι β where
  claim := row.claimant
  requestHash := row.requestHash
  expiresAt := row.expiresAt
  response := match row.status with
    | .inProgress => none
    | .completed => some row.response

theorem slot_inProgress {row : Held ι β} (h : row.status = .inProgress) : row.slot.response = none := by
  simp [Held.slot, h]

/-- A completed row gives back what it was completed with. -/
theorem slot_completedWith (row : Held ι β) (response : Option (IdempotentResponse β)) :
    (row.completedWith response).slot = { row.slot with response := some response } := by
  cases response <;> rfl

def Write.Ready (c : ι) (clock : Int) (record : Option (Held ι β)) : Write ι β → Prop
  | .insert row => record = none ∧ ∃ requestHash now, row = claimed c requestHash now
  | .reclaim old row => record = some old ∧
      ∃ requestHash now, row = claimed c requestHash now ∧ old.expiresAt ≤ now ∧ now ≤ clock
  | .complete old _ => record = some old ∧ old.status = .inProgress
  | .release old => record = some old ∧ old.status = .inProgress
  | .sweep old now => record = some old ∧ old.expiresAt ≤ now

/-- A write that is ready extends the history to its row. -/
theorem Write.Ready.history {c : ι} {clock : Int} {record : Option (Held ι β)} {w : Write ι β}
    {es : List (Event ι β)} (h : w.Ready c clock record) (hes : History es (record.map Held.slot)) :
    History (es ++ w.events c) (w.row.map Held.slot) := by
  cases w with
  | insert row =>
    obtain ⟨rfl,requestHash,now,rfl⟩ := h
    exact hes.snoc .fresh
  | reclaim old row =>
    obtain ⟨rfl,requestHash,now,rfl,hx,_⟩ := h
    have h1 := hes.snoc (Accepts.lapsed (r := old.slot) hx)
    have h2 := h1.snoc (Accepts.fresh (c := c) (h := requestHash.getD "") (x := now + idempotencyRetention))
    rw [List.append_assoc] at h2
    exact h2
  | complete old response =>
    obtain ⟨rfl,hs⟩ := h
    have h1 : History (es ++ [.completed c old.slot.claim response]) (some { old.slot with response := some response }) :=
      hes.snoc (.completed (slot_inProgress hs))
    rw [← slot_completedWith] at h1
    exact h1
  | release old =>
    obtain ⟨rfl,hs⟩ := h
    exact hes.snoc (.released (slot_inProgress hs))
  | sweep old now =>
    obtain ⟨rfl,hx⟩ := h
    exact hes.snoc (Accepts.swept (r := old.slot) hx)

/-- What a claim makes of a held row, and what it learns. -/
theorem read_cases (c : ι) (requestHash : Option String) (held : Held ι β) :
    (outcomeOf requestHash held.toIdempotencyRecord = .mismatch ∧
      ∃ hash, requestHash = some hash ∧ held.requestHash ≠ hash ∧
        readEvent c requestHash held = .mismatched c held.claimant hash) ∨
    (outcomeOf requestHash held.toIdempotencyRecord = .inFlight ∧ readEvent c requestHash held = .deferred c) ∨
    (outcomeOf requestHash held.toIdempotencyRecord = .replay held.response ∧ held.status = .completed ∧
      readEvent c requestHash held = .replayed c held.claimant held.response) := by
  by_cases hm : requestHash.any (· ≠ held.requestHash) = true
  · have ho : outcomeOf requestHash held.toIdempotencyRecord = .mismatch := if_pos hm
    obtain ⟨hash,rfl,hne⟩ := (Option.any_eq_true ..).mp hm
    exact .inl ⟨ho,hash,rfl,fun h => of_decide_eq_true hne h.symm,by rw [readEvent, ho]; rfl⟩
  · cases hs : held.status with
    | inProgress =>
      have ho : outcomeOf requestHash held.toIdempotencyRecord = .inFlight := by
        rw [outcomeOf, if_neg hm, hs]
      exact .inr (.inl ⟨ho,by rw [readEvent, ho]⟩)
    | completed =>
      have ho : outcomeOf requestHash held.toIdempotencyRecord = .replay held.response := by
        rw [outcomeOf, if_neg hm, hs]
      exact .inr (.inr ⟨ho,rfl,by rw [readEvent, ho]⟩)

/-- A read is an event that the row accepts and that leaves it in place. -/
theorem readEvent_accepts (c : ι) (requestHash : Option String) (held : Held ι β) :
    Accepts (some held.slot) (readEvent c requestHash held) (some held.slot) := by
  rcases read_cases c requestHash held with ⟨_,hash,_,hne,he⟩ | ⟨_,he⟩ | ⟨_,hs,he⟩
  · rw [he]
    exact .mismatched (r := held.slot) hne
  · rw [he]
    exact .deferred
  · rw [he]
    exact .replayed (r := held.slot) (by simp [Held.slot, hs])

def Earned (es : List (Event ι β)) (c : ι) : Outcome β → Prop
  | .fresh => ∃ requestHash expiresAt, .fresh c requestHash expiresAt ∈ es
  | .replay response => ∃ claim, .replayed c claim response ∈ es
  | .mismatch => ∃ claim requestHash, .mismatched c claim requestHash ∈ es
  | .inFlight => .deferred c ∈ es
  | .settled => True

theorem Earned.mono {es es' : List (Event ι β)} {c : ι} {o : Outcome β} (h : Earned es c o)
    (hes : es ⊆ es') : Earned es' c o := by
  cases o with
  | fresh =>
    obtain ⟨requestHash,expiresAt,h⟩ := h
    exact ⟨requestHash,expiresAt,hes h⟩
  | replay response =>
    obtain ⟨claim,h⟩ := h
    exact ⟨claim,hes h⟩
  | mismatch =>
    obtain ⟨claim,requestHash,h⟩ := h
    exact ⟨claim,requestHash,hes h⟩
  | inFlight => exact hes h
  | settled => trivial

theorem earned_read (es : List (Event ι β)) (c : ι) (requestHash : Option String) (held : Held ι β) :
    Earned (es ++ [readEvent c requestHash held]) c (outcomeOf requestHash held.toIdempotencyRecord) ∧
      outcomeOf requestHash held.toIdempotencyRecord ≠ .fresh := by
  rcases read_cases c requestHash held with ⟨ho,hash,_,_,he⟩ | ⟨ho,he⟩ | ⟨ho,_,he⟩ <;> rw [ho, he]
  · exact ⟨⟨_,_,List.mem_concat_self⟩,by simp⟩
  · exact ⟨List.mem_concat_self,by simp⟩
  · exact ⟨⟨_,List.mem_concat_self⟩,by simp⟩

def Call.fuel : Call β → Nat
  | .claim _ remaining => 5 * remaining + 6
  | .insert _ remaining _ => 5 * remaining + 5
  | .contend _ remaining => 5 * remaining + 4
  | .reclaim _ remaining _ => 5 * remaining + 3
  | .read _ remaining => 5 * remaining + 2
  | .complete _ => 2
  | .release => 2
  | .sweep _ => 2
  | .commit _ => 1

theorem Call.fuel_pos (call : Call β) : 0 < call.fuel := by
  cases call <;> exact Nat.succ_pos _

def Call.roundsLeft : Call β → Nat
  | .claim _ remaining => remaining + 1
  | .insert _ remaining _ => remaining
  | .contend _ remaining => remaining
  | .reclaim _ remaining _ => remaining
  | .read _ remaining => remaining
  | _ => 0

def Call.Timely (clock : Int) : Call β → Prop
  | .reclaim _ _ now => now ≤ clock
  | _ => True

inductive Kind where
  | claim | complete | release | sweep
  deriving DecidableEq, Repr

def Call.kind : Call β → Option Kind
  | .complete _ => some .complete
  | .release => some .release
  | .sweep _ => some .sweep
  | .commit _ => none
  | _ => some .claim

def Write.kind : Write ι β → Kind
  | .complete _ _ => .complete
  | .release _ => .release
  | .sweep _ _ => .sweep
  | _ => .claim

def Call.evicts (old : Held ι β) : Call β → Bool
  | .reclaim _ _ now => old.expiresAt ≤ now
  | .sweep now => old.expiresAt ≤ now
  | _ => false

def Write.evicted : Write ι β → Option (Held ι β)
  | .reclaim old _ => some old
  | .sweep old _ => some old
  | _ => none

section Moves
variable [DecidableEq ι]

inductive Moves (s : Store ι β) (c : ι) : Call β → Store ι β → Prop
  /-- Another round of `attemptClaim` begins. -/
  | enter {requestHash remaining} : Moves s c (.claim requestHash remaining)
      { s.goto c (.insert requestHash remaining s.clock) with
        rounds := Function.update s.rounds c (s.rounds c + 1) }
  /-- The statement changes nothing. -/
  | pass {call next} (hfuel : next.fuel < call.fuel) (hrounds : next.roundsLeft ≤ call.roundsLeft)
      (htimely : next.Timely s.clock) (hplain : ∀ o, next = .commit o → o = .settled)
      (hkind : ∀ k, next.kind = some k → call.kind = some k) : Moves s c call (s.goto c next)
  /-- The statement locks the row. -/
  | locks {call w o} (hfuel : 2 ≤ call.fuel) (hfree : s.pending = none) (hready : w.Ready c s.clock s.record)
      (hearned : Earned (w.events c) c o) (hkind : call.kind = some w.kind)
      (hevicts : ∀ old, w.evicted = some old → call.evicts old = true) : Moves s c call (s.lock c w o)
  /-- The statement reads the row, and the call will answer by what it read. -/
  | reads {call e o} (hfuel : 2 ≤ call.fuel)
      (haccepts : Accepts (s.record.map Held.slot) e (s.record.map Held.slot))
      (hread : e.isRead = true) (hfresh : o ≠ .fresh)
      (hearned : Earned (s.history ++ [e]) c o) :
      Moves s c call { s.goto c (.commit o) with history := s.history ++ [e] }
  | commits {o} : Moves s c (.commit o) { s.commit c with answers := s.answers ++ [(c, o)] }

private theorem tryLock_some {s s' : Store ι β} {c : ι} {w : Write ι β} {o : Outcome β}
    (h : s.tryLock c w o = some s') : s.pending = none ∧ s' = s.lock c w o := by
  unfold Store.tryLock at h
  split at h
  · exact ⟨by assumption,(Option.some.inj h).symm⟩
  · cases h

private theorem moves_settle {s s' : Store ι β} {c : ι} {call : Call β} {w : Held ι β → Write ι β}
    {p : Held ι β → Prop} [DecidablePred p] (h : s.settle c p w = some s') (hfuel : call.fuel = 2)
    (hready : ∀ old, s.record = some old → p old → (w old).Ready c s.clock s.record)
    (hkind : ∀ old, call.kind = some (w old).kind)
    (hevicts : ∀ old old', p old → (w old).evicted = some old' → call.evicts old' = true) : Moves s c call s' := by
  have hpass : Moves s c call (s.goto c (.commit .settled)) :=
    .pass (by rw [hfuel]; exact Nat.lt_succ_self 1) (Nat.zero_le _) trivial
      (fun o ho => by cases ho; rfl) fun k hk => by cases hk
  unfold Store.settle at h
  split at h
  · cases h
    exact hpass
  · rename_i old hold
    split at h
    · rename_i hp
      obtain ⟨hfree,rfl⟩ := tryLock_some h
      exact .locks (by omega) hfree (hready old hold hp) trivial (hkind old) (hevicts old · hp)
    · cases h
      exact hpass

theorem moves_of_advance {s s' : Store ι β} {c : ι} {call : Call β} (ht : call.Timely s.clock)
    (h : s.advance c call = some s') : Moves s c call s' := by
  cases call with
  | claim requestHash remaining =>
    cases h
    exact .enter
  | insert requestHash remaining now =>
    simp only [Store.advance] at h
    split at h
    · rename_i hnone
      obtain ⟨hfree,rfl⟩ := tryLock_some h
      exact .locks (by simp [Call.fuel]) hfree ⟨hnone,_,_,rfl⟩ ⟨_,_,List.mem_singleton_self _⟩ rfl
        fun old he => by cases he
    · split at h
      · cases h
      · cases h
        exact .pass (by simp [Call.fuel]) (Nat.le_refl _) trivial (fun o ho => by cases ho) fun k hk => hk
  | contend requestHash remaining =>
    cases h
    exact .pass (by simp [Call.fuel]) (Nat.le_refl _) (Int.le_refl _) (fun o ho => by cases ho) fun k hk => hk
  | reclaim requestHash remaining now =>
    have hpass : Moves s c (.reclaim requestHash remaining now) (s.goto c (.read requestHash remaining)) :=
      .pass (by simp [Call.fuel]) (Nat.le_refl _) trivial (fun o ho => by cases ho) fun k hk => hk
    simp only [Store.advance] at h
    split at h
    · cases h
      exact hpass
    · rename_i old hold
      split at h
      · rename_i hx
        obtain ⟨hfree,rfl⟩ := tryLock_some h
        refine .locks (by simp [Call.fuel]) hfree ⟨hold,_,_,rfl,hx,ht⟩
          ⟨_,_,List.mem_cons_of_mem _ (List.mem_singleton_self _)⟩ rfl fun old he => ?_
        cases he
        exact decide_eq_true hx
      · cases h
        exact hpass
  | read requestHash remaining =>
    simp only [Store.advance] at h
    split at h
    · rename_i hnone
      split at h
      · rename_i remaining
        cases h
        exact .pass (by simp only [Call.fuel]; omega) (Nat.le_refl _) trivial (fun o ho => by cases ho) fun k hk => hk
      · cases h
        exact .reads (by simp [Call.fuel]) .deferred rfl (by simp) List.mem_concat_self
    · rename_i held hheld
      cases h
      obtain ⟨hearned,hfresh⟩ := earned_read s.history c requestHash held
      refine .reads (by simp [Call.fuel]) ?_ ?_ hfresh hearned
      · rw [hheld]
        exact readEvent_accepts c requestHash held
      · rcases read_cases c requestHash held with ⟨_,_,_,_,he⟩ | ⟨_,he⟩ | ⟨_,_,he⟩ <;> rw [he] <;> rfl
  | complete response =>
    exact moves_settle (h : s.settle .. = _) rfl (fun _ hold hp => ⟨hold,hp⟩) (fun _ => rfl) fun _ _ _ he => by cases he
  | release =>
    exact moves_settle (h : s.settle .. = _) rfl (fun _ hold hp => ⟨hold,hp⟩) (fun _ => rfl) fun _ _ _ he => by cases he
  | sweep now =>
    refine moves_settle (h : s.settle .. = _) rfl (fun _ hold hp => ⟨hold,hp⟩) (fun _ => rfl) fun old old' hp he => ?_
    cases he
    exact decide_eq_true hp
  | commit o =>
    cases h
    exact .commits

def Promised (s : Store ι β) (c : ι) (o : Outcome β) : Prop :=
  (o ≠ .fresh ∧ Earned s.history c o) ∨ ∃ w, s.pending = some (c, w) ∧ Earned (w.events c) c o

structure Tracked (s : Store ι β) : Prop where
  refines : History s.history (s.record.map Held.slot)
  ready : ∀ c w, s.pending = some (c, w) →
    w.Ready c s.clock s.record ∧ ∃ o, s.calls c = some (.commit o)
  timely : ∀ c call, s.calls c = some call → call.Timely s.clock
  lapsed : ∀ claim now, .lapsed claim now ∈ s.history → now ≤ s.clock
  rounds : ∀ c, s.rounds c + (s.calls c).elim 0 Call.roundsLeft ≤ reclaimAttempts + 1
  promised : ∀ c o, s.calls c = some (.commit o) → Promised s c o
  answered : ∀ c o, (c, o) ∈ s.answers → Earned s.history c o

omit [DecidableEq ι] in
theorem tracked_initial : Tracked (Store.initial : Store ι β) where
  refines := .nil
  ready _ _ h := by cases h
  timely _ _ h := by cases h
  lapsed _ _ h := by cases h
  rounds _ := Nat.zero_le _
  promised _ _ h := by cases h
  answered _ _ h := by cases h

omit [DecidableEq ι] in
private theorem Write.Ready.mono {c : ι} {clock clock' : Int} {record : Option (Held ι β)} {w : Write ι β}
    (h : w.Ready c clock record) (hc : clock ≤ clock') : w.Ready c clock' record := by
  cases w with
  | reclaim old row =>
    obtain ⟨hr,requestHash,now,he,hx,hn⟩ := h
    exact ⟨hr,requestHash,now,he,hx,Int.le_trans hn hc⟩
  | _ => exact h

omit [DecidableEq ι] in
private theorem tracked_tick {s : Store ι β} (h : Tracked s) {now : Int} (hn : s.clock ≤ now) :
    Tracked { s with clock := now } where
  refines := h.refines
  ready c w hp := ⟨(h.ready c w hp).1.mono hn,(h.ready c w hp).2⟩
  timely c call hc := by
    have := h.timely c call hc
    cases call <;> simp_all [Call.Timely]
    omega
  lapsed claim t ht := Int.le_trans (h.lapsed claim t ht) hn
  rounds := h.rounds
  promised := h.promised
  answered := h.answered

private theorem tracked_goto {s : Store ι β} (h : Tracked s) {c : ι} {next : Call β} {rounds : ι → Nat}
    (hlock : ∀ w, s.pending ≠ some (c, w)) (htimely : next.Timely s.clock)
    (hrounds : rounds c + next.roundsLeft ≤ reclaimAttempts + 1) (hother : ∀ j, j ≠ c → rounds j = s.rounds j)
    (hpromised : ∀ o, next = .commit o → Promised s c o) : Tracked { s.goto c next with rounds := rounds } where
  refines := h.refines
  ready j w hp := by
    obtain ⟨hr,o,ho⟩ := h.ready j w hp
    have hjc : j ≠ c := by
      rintro rfl
      exact hlock w hp
    exact ⟨hr,o,(Function.update_of_ne hjc _ _).trans ho⟩
  timely j call hj := by
    by_cases hjc : j = c
    · subst hjc
      cases (Function.update_self ..).symm.trans hj
      exact htimely
    · exact h.timely j call ((Function.update_of_ne hjc _ _).symm.trans hj)
  lapsed := h.lapsed
  rounds j := by
    by_cases hjc : j = c
    · subst hjc
      simpa [Store.goto] using hrounds
    · simpa [Store.goto, hjc, hother j hjc] using h.rounds j
  promised j o hj := by
    by_cases hjc : j = c
    · subst hjc
      cases (Function.update_self ..).symm.trans hj
      exact hpromised o rfl
    · exact h.promised j o ((Function.update_of_ne hjc _ _).symm.trans hj)
  answered := h.answered

omit [DecidableEq ι] in
private theorem tracked_observe {s : Store ι β} (h : Tracked s) {e : Event ι β}
    (ha : Accepts (s.record.map Held.slot) e (s.record.map Held.slot)) (hread : e.isRead = true) :
    Tracked { s with history := s.history ++ [e] } where
  refines := h.refines.snoc ha
  ready := h.ready
  timely := h.timely
  lapsed claim now hm := by
    rcases List.mem_append.mp hm with hm | hm
    · exact h.lapsed claim now hm
    · cases List.mem_singleton.mp hm
      cases hread
  rounds := h.rounds
  promised c o hc := by
    rcases h.promised c o hc with ⟨hne,he⟩ | hw
    · exact .inl ⟨hne,he.mono (List.subset_append_left _ _)⟩
    · exact .inr hw
  answered c o ho := (h.answered c o ho).mono (List.subset_append_left _ _)

private theorem tracked_lock {s : Store ι β} (h : Tracked s) {c : ι} {call : Call β} {w : Write ι β} {o : Outcome β}
    (hcall : s.calls c = some call) (hfree : s.pending = none) (hready : w.Ready c s.clock s.record)
    (hearned : Earned (w.events c) c o) : Tracked (s.lock c w o) where
  refines := h.refines
  ready j w' hp := by
    cases hp
    exact ⟨hready,o,Function.update_self ..⟩
  timely j call hj := by
    by_cases hjc : j = c
    · subst hjc
      cases (Function.update_self ..).symm.trans hj
      trivial
    · exact h.timely j call ((Function.update_of_ne hjc _ _).symm.trans hj)
  lapsed := h.lapsed
  rounds j := by
    have hj := h.rounds j
    by_cases hjc : j = c
    · subst hjc
      simp only [Store.lock, Store.goto, Function.update_self, Option.elim_some, Call.roundsLeft]
      omega
    · simpa [Store.lock, Store.goto, hjc] using hj
  promised j o' hj := by
    by_cases hjc : j = c
    · subst hjc
      cases (Function.update_self ..).symm.trans hj
      exact .inr ⟨w,rfl,hearned⟩
    · rcases h.promised j o' ((Function.update_of_ne hjc _ _).symm.trans hj) with he | ⟨w',hw',_⟩
      · exact .inl he
      · cases hfree.symm.trans hw'
  answered := h.answered

/-- A call ends, and whatever it held is published or dropped with it. -/
private theorem tracked_end {s s' : Store ι β} (h : Tracked s) {c : ι} {es : List (Event ι β)}
    (hclock : s'.clock = s.clock) (hcalls : s'.calls = Function.update s.calls c none)
    (hrounds : s'.rounds = s.rounds) (hhistory : s'.history = s.history ++ es) (hanswers : s'.answers = s.answers)
    (hrefines : History s'.history (s'.record.map Held.slot))
    (hlapsed : ∀ claim now, .lapsed claim now ∈ es → now ≤ s.clock)
    (hpending : ∀ j w, s'.pending = some (j, w) → j ≠ c ∧ s.pending = some (j, w) ∧ s'.record = s.record)
    (hother : ∀ j w, j ≠ c → s.pending = some (j, w) → s'.pending = some (j, w)) : Tracked s' where
  refines := hrefines
  ready j w hp := by
    obtain ⟨hjc,hp,hrec⟩ := hpending j w hp
    obtain ⟨hr,o,ho⟩ := h.ready j w hp
    rw [hclock, hrec, hcalls]
    exact ⟨hr,o,(Function.update_of_ne hjc _ _).trans ho⟩
  timely j call hj := by
    rw [hcalls] at hj
    rw [hclock]
    by_cases hjc : j = c
    · subst hjc
      simp at hj
    · exact h.timely j call ((Function.update_of_ne hjc _ _).symm.trans hj)
  lapsed claim now hm := by
    rw [hhistory] at hm
    rw [hclock]
    rcases List.mem_append.mp hm with hm | hm
    · exact h.lapsed claim now hm
    · exact hlapsed claim now hm
  rounds j := by
    have hj := h.rounds j
    rw [hrounds, hcalls]
    by_cases hjc : j = c
    · subst hjc
      simp only [Function.update_self, Option.elim_none]
      omega
    · simpa [hjc] using hj
  promised j o hj := by
    rw [hcalls] at hj
    by_cases hjc : j = c
    · subst hjc
      simp at hj
    · rcases h.promised j o ((Function.update_of_ne hjc _ _).symm.trans hj) with ⟨hne,he⟩ | ⟨w,hw,hearned⟩
      · refine .inl ⟨hne,?_⟩
        rw [hhistory]
        exact he.mono (List.subset_append_left _ _)
      · exact .inr ⟨w,hother j w hjc hw,hearned⟩
  answered j o ho := by
    rw [hanswers] at ho
    rw [hhistory]
    exact (h.answered j o ho).mono (List.subset_append_left _ _)

private theorem tracked_commit {s : Store ι β} (h : Tracked s) (c : ι) : Tracked (s.commit c) := by
  by_cases hp : ∃ w, s.pending = some (c, w)
  · obtain ⟨w,hp⟩ := hp
    obtain ⟨hready,_⟩ := h.ready c w hp
    rw [Store.commit_holder hp]
    refine tracked_end h rfl rfl rfl rfl rfl (hready.history h.refines) ?_ (fun j w h => by cases h) ?_
    · intro claim now hm
      cases w with
      | reclaim old row =>
        obtain ⟨_,requestHash,t,rfl,_,ht⟩ := hready
        simp only [Write.events, List.mem_cons, Event.lapsed.injEq, reduceCtorEq, List.not_mem_nil, or_false] at hm
        exact hm.2 ▸ ht
      | _ => simp [Write.events] at hm
    · intro j w' hjc hp'
      cases hp.symm.trans hp'
      exact absurd rfl hjc
  · rw [Store.commit_other fun w hw => hp ⟨w,hw⟩]
    refine tracked_end h rfl rfl rfl (List.append_nil _).symm rfl h.refines (by simp) ?_ (fun _ _ _ hw => hw)
    intro j w hw
    refine ⟨?_,hw,rfl⟩
    rintro rfl
    exact hp ⟨w,hw⟩

private theorem tracked_rollback {s : Store ι β} (h : Tracked s) (c : ι) : Tracked (s.rollback c) := by
  refine tracked_end h rfl rfl rfl (List.append_nil _).symm rfl h.refines (by simp) ?_ ?_
  · intro j w hw
    obtain ⟨hw,hjc⟩ := Option.filter_eq_some_iff.mp hw
    exact ⟨of_decide_eq_true hjc,hw,rfl⟩
  · intro j w hjc hw
    exact Option.filter_eq_some_iff.mpr ⟨hw,decide_eq_true hjc⟩

omit [DecidableEq ι] in
/-- A call that is not about to commit holds no lock. -/
theorem no_lock {s : Store ι β} (h : Tracked s) {c : ι} {call : Call β} (hc : s.calls c = some call)
    (hf : 2 ≤ call.fuel) (w : Write ι β) : s.pending ≠ some (c, w) := by
  intro hp
  obtain ⟨_,o,ho⟩ := h.ready c w hp
  cases hc.symm.trans ho
  simp [Call.fuel] at hf

private theorem earned_commit {s : Store ι β} {c : ι} {o : Outcome β} (h : Promised s c o) :
    Earned (s.commit c).history c o := by
  by_cases hp : ∃ w, s.pending = some (c, w)
  · obtain ⟨w,hp⟩ := hp
    rw [Store.commit_holder hp]
    rcases h with ⟨_,he⟩ | ⟨w',hw',he⟩
    · exact he.mono (List.subset_append_left _ _)
    · cases hp.symm.trans hw'
      exact he.mono (List.subset_append_right _ _)
  · rw [Store.commit_other fun w hw => hp ⟨w,hw⟩]
    rcases h with ⟨_,he⟩ | ⟨w,hw,_⟩
    · exact he
    · exact absurd ⟨w,hw⟩ hp

private theorem tracked_moves {s s' : Store ι β} (h : Tracked s) {c : ι} {call : Call β}
    (hc : s.calls c = some call) (hm : Moves s c call s') : Tracked s' := by
  have hround := h.rounds c
  rw [hc, Option.elim_some] at hround
  cases hm with
  | enter =>
    refine tracked_goto h (no_lock h hc (by simp [Call.fuel])) trivial ?_ (fun j hj => Function.update_of_ne hj _ _)
      (fun o ho => by cases ho)
    simpa [Call.roundsLeft, Nat.add_assoc, Nat.add_comm] using hround
  | pass hfuel hrounds htimely hplain _ =>
    refine tracked_goto h (no_lock h hc (Nat.lt_of_le_of_lt (Call.fuel_pos _) hfuel)) htimely (by omega)
      (fun _ _ => rfl) fun o ho => ?_
    cases hplain o ho
    exact .inl ⟨by simp,trivial⟩
  | locks _ hfree hready hearned => exact tracked_lock h hc hfree hready hearned
  | reads hfuel haccepts hread hfresh hearned =>
    refine tracked_goto (tracked_observe h haccepts hread) (no_lock h hc hfuel) trivial ?_ (fun _ _ => rfl) ?_
    · exact Nat.le_trans (Nat.add_le_add_left (Nat.zero_le _) _) hround
    · intro o ho
      cases ho
      exact .inl ⟨hfresh,hearned⟩
  | commits =>
    have h' := tracked_commit h c
    refine ⟨h'.refines,h'.ready,h'.timely,h'.lapsed,h'.rounds,h'.promised,fun j o ho => ?_⟩
    rcases List.mem_append.mp ho with ho | ho
    · exact h'.answered j o (by rwa [Store.commit_answers])
    · cases List.mem_singleton.mp ho
      exact earned_commit (h.promised c _ hc)

theorem tracked_step {s s' : Store ι β} {a : Action ι β} (h : Tracked s) (hs : s.step a = some s') :
    Tracked s' := by
  cases a with
  | tick now =>
    simp only [Store.step] at hs
    split at hs
    · cases hs
      exact tracked_tick h (by assumption)
    · cases hs
  | begin c op =>
    simp only [Store.step] at hs
    split at hs
    · rename_i hnone
      cases hs
      refine tracked_goto h ?_ ?_ ?_ (fun j hj => Function.update_of_ne hj _ _) ?_
      · intro w hp
        obtain ⟨_,o,ho⟩ := h.ready c w hp
        cases hnone.symm.trans ho
      · cases op <;> trivial
      · cases op <;> simp [Operation.start, Call.roundsLeft]
      · cases op <;> exact fun o ho => by cases ho
    · cases hs
  | advance c =>
    obtain ⟨call,hc,hadv⟩ := Option.bind_eq_some_iff.mp hs
    exact tracked_moves h hc (moves_of_advance (h.timely c call hc) hadv)
  | abort c =>
    obtain ⟨call,_,rfl⟩ := Option.map_eq_some_iff.mp hs
    exact tracked_rollback h c
  | lose c =>
    simp only [Store.step] at hs
    split at hs
    · cases hs
      exact tracked_commit h c
    · cases hs

/-- Every store that calls can reach, in any order and with any failures, is tracked. -/
theorem tracked_of_run {acts : List (Action ι β)} {s : Store ι β}
    (hr : Run Store.step Always Store.initial acts s) : Tracked s :=
  hr.invariant tracked_initial fun _ _ _ h _ hs => tracked_step h hs

def fuelOf (s : Store ι β) (c : ι) : Nat := (s.calls c).elim 0 Call.fuel

def Action.isAdvance (c : ι) : Action ι β → Bool
  | .advance j => j = c
  | _ => false

theorem commit_calls (s : Store ι β) (c : ι) : (s.commit c).calls = Function.update s.calls c none := by
  by_cases h : ∃ w, s.pending = some (c, w)
  · obtain ⟨w,h⟩ := h
    rw [Store.commit_holder h]
  · rw [Store.commit_other fun w hw => h ⟨w,hw⟩]

/-- A statement uses up fuel of its own call, and leaves the other calls where they are. -/
private theorem moves_fuel {s s' : Store ι β} {c : ι} {call : Call β} (hc : s.calls c = some call)
    (hm : Moves s c call s') : fuelOf s' c < fuelOf s c ∧ ∀ j, j ≠ c → fuelOf s' j = fuelOf s j := by
  have hnext : ∀ next : Option (Call β), s'.calls = Function.update s.calls c next →
      next.elim 0 Call.fuel < call.fuel → fuelOf s' c < fuelOf s c ∧ ∀ j, j ≠ c → fuelOf s' j = fuelOf s j := by
    intro next hcalls hlt
    refine ⟨?_,fun j hj => ?_⟩
    · simpa [fuelOf, hcalls, hc] using hlt
    · simp [fuelOf, hcalls, hj]
  cases hm with
  | enter => exact hnext _ rfl (Nat.lt_succ_self _)
  | pass hfuel => exact hnext _ rfl hfuel
  | locks hfuel => exact hnext _ rfl hfuel
  | reads hfuel => exact hnext _ rfl hfuel
  | commits => exact hnext none (commit_calls s c) Nat.one_pos

/-- No call gains fuel after its start, and each of its statements costs some. -/
private theorem step_fuel {s s' : Store ι β} (h : Tracked s) {a : Action ι β} (hs : s.step a = some s') (c : ι)
    (hbegin : ∀ op, a ≠ .begin c op) : (a.isAdvance c).toNat + fuelOf s' c ≤ fuelOf s c := by
  have hdrop : ∀ (t : Store ι β) (j : ι), t.calls = Function.update s.calls j none → fuelOf t c ≤ fuelOf s c := by
    intro t j ht
    by_cases hjc : c = j
    · subst hjc
      simp [fuelOf, ht]
    · simp [fuelOf, ht, hjc]
  cases a with
  | tick now =>
    simp only [Store.step] at hs
    split at hs
    · cases hs
      simp [Action.isAdvance, fuelOf]
    · cases hs
  | begin j op =>
    have hjc : c ≠ j := by
      rintro rfl
      exact hbegin op rfl
    simp only [Store.step] at hs
    split at hs
    · cases hs
      simp [Action.isAdvance, fuelOf, Store.goto, hjc]
    · cases hs
  | advance j =>
    obtain ⟨call,hj,hadv⟩ := Option.bind_eq_some_iff.mp hs
    obtain ⟨hlt,hother⟩ := moves_fuel hj (moves_of_advance (h.timely j call hj) hadv)
    by_cases hjc : j = c
    · subst hjc
      simp only [Action.isAdvance, decide_true, Bool.toNat_true]
      omega
    · simp [Action.isAdvance, hjc, hother c (Ne.symm hjc)]
  | abort j =>
    obtain ⟨_,_,rfl⟩ := Option.map_eq_some_iff.mp hs
    simpa [Action.isAdvance] using hdrop _ j rfl
  | lose j =>
    simp only [Store.step] at hs
    split at hs
    · cases hs
      simpa [Action.isAdvance] using hdrop _ j (commit_calls s j)
    · cases hs

private theorem advance_enabled {s : Store ι β} (hfree : s.pending = none) (c : ι) (call : Call β) :
    ∃ s', s.advance c call = some s' := by
  cases call with
  | read requestHash remaining =>
    cases hr : s.record <;> cases remaining <;> simp [Store.advance, hr]
  | reclaim requestHash remaining now =>
    cases hr : s.record with
    | none => simp [Store.advance, hr]
    | some old => by_cases hx : old.expiresAt ≤ now <;> simp [Store.advance, Store.tryLock, hr, hfree, hx]
  | sweep now =>
    cases hr : s.record with
    | none => simp [Store.advance, Store.settle, hr]
    | some old => by_cases hx : old.expiresAt ≤ now <;> simp [Store.advance, Store.settle, Store.tryLock, hr, hfree, hx]
  | insert requestHash remaining now => cases hr : s.record <;> simp [Store.advance, Store.tryLock, hr, hfree]
  | complete response =>
    cases hr : s.record with
    | none => simp [Store.advance, Store.settle, hr]
    | some old => cases hx : old.status <;> simp [Store.advance, Store.settle, Store.tryLock, hr, hfree, hx]
  | release =>
    cases hr : s.record with
    | none => simp [Store.advance, Store.settle, hr]
    | some old => cases hx : old.status <;> simp [Store.advance, Store.settle, Store.tryLock, hr, hfree, hx]
  | claim requestHash remaining => exact ⟨_,rfl⟩
  | contend requestHash remaining => exact ⟨_,rfl⟩
  | commit o => exact ⟨_,rfl⟩

/-- The record of `claim` is the one held after `es`: claimed there under `requestHash`, and
not ended since; `since` is what happened to it. -/
def HeldAfter (es : List (Event ι β)) (claim : ι) (requestHash : String) (since : List (Event ι β)) : Prop :=
  ∃ l expiresAt, es = l ++ Event.fresh claim requestHash expiresAt :: since ∧
    ∀ e ∈ since, ¬ Ends claim expiresAt e

omit [DecidableEq ι] in
/-- What is replayed, a caller completed the held record with. -/
theorem Tracked.replay {s : Store ι β} (h : Tracked s) {l₁ l₂ : List (Event ι β)} {b claim : ι}
    {response : Option (IdempotentResponse β)} (he : s.history = l₁ ++ Event.replayed b claim response :: l₂) :
    ∃ requestHash since b', HeldAfter l₁ claim requestHash since ∧ .completed b' claim response ∈ since := by
  have hist := h.refines
  rw [he] at hist
  obtain ⟨t,_,ht,ha⟩ := hist.before
  cases ha with
  | replayed hresp =>
    obtain ⟨l,since,hl,hkeep,hdone⟩ := ht.held
    obtain ⟨b',hb'⟩ := hdone response hresp
    exact ⟨_,since,b',⟨l,_,hl,hkeep⟩,hb'⟩

structure ClaimsExclude (s : Store ι β) : Prop where
  /-- A call answers only what the history shows. -/
  answers : ∀ c o, (c, o) ∈ s.answers → Earned s.history c o
  /-- Between two fresh claims the record of the first was released, swept or had expired. -/
  fresh : ∀ l₁ l₂ l₃ c₁ c₂ h₁ h₂ x₁ x₂,
    s.history = l₁ ++ Event.fresh c₁ h₁ x₁ :: l₂ ++ Event.fresh c₂ h₂ x₂ :: l₃ →
    (∃ b, .released b c₁ ∈ l₂) ∨ (∃ now, .swept c₁ now ∈ l₂) ∨
      ∃ now, .lapsed c₁ now ∈ l₂ ∧ x₁ ≤ now ∧ now ≤ s.clock
  /-- A replay carries what a caller completed the held record with. -/
  replay : ∀ l₁ l₂ b claim response, s.history = l₁ ++ Event.replayed b claim response :: l₂ →
    ∃ requestHash since b', HeldAfter l₁ claim requestHash since ∧ .completed b' claim response ∈ since
  /-- A mismatch is against the hash the held record was claimed under. -/
  mismatch : ∀ l₁ l₂ b claim hash, s.history = l₁ ++ Event.mismatched b claim hash :: l₂ →
    ∃ requestHash since, HeldAfter l₁ claim requestHash since ∧ requestHash ≠ hash
  rounds : ∀ c, s.rounds c ≤ 3
  /-- An open call takes its next statement, or waits for a lock whose holder only has to commit. -/
  progress : ∀ c call, s.calls c = some call → (∃ s', s.step (.advance c) = some s') ∨
    ∃ j w o, j ≠ c ∧ s.pending = some (j, w) ∧ s.calls j = some (.commit o)
  /-- The statements a call takes until it returns are bounded by what it starts with. -/
  returns : ∀ c acts t, Run Store.step Always s acts t → (∀ op, .begin c op ∉ acts) →
    acts.countP (Action.isAdvance c) + fuelOf t c ≤ fuelOf s c

private theorem run_fuel {s t : Store ι β} (h : Tracked s) {acts : List (Action ι β)} (c : ι)
    (hr : Run Store.step Always s acts t) (hbegin : ∀ op, .begin c op ∉ acts) :
    Tracked t ∧ acts.countP (Action.isAdvance c) + fuelOf t c ≤ fuelOf s c := by
  induction hr with
  | nil => simpa using h
  | snoc _ _ hs ih =>
    rename_i acts a t u _ _
    obtain ⟨ht,hle⟩ := ih fun op hm => hbegin op (List.mem_append_left _ hm)
    have hstep := step_fuel ht hs c fun op ha => hbegin op (by simp [ha])
    refine ⟨tracked_step ht hs,?_⟩
    rw [List.countP_append, List.countP_singleton]
    cases hadv : a.isAdvance c <;> simp [hadv] at hstep ⊢ <;> omega

/-- The claims of any number of callers exclude each other, in every reachable store. -/
theorem claimsExclude_of_run {acts : List (Action ι β)} {s : Store ι β}
    (hr : Run Store.step Always Store.initial acts s) : ClaimsExclude s := by
  have h := tracked_of_run hr
  constructor
  · exact h.answered
  · intro l₁ l₂ l₃ c₁ c₂ h₁ h₂ x₁ x₂ he
    have hist := h.refines
    rw [he] at hist
    obtain ⟨e,hm,⟨b,rfl⟩ | ⟨now,rfl,_⟩ | ⟨now,rfl,hx⟩⟩ := hist.exclusive
    · exact .inl ⟨b,hm⟩
    · exact .inr (.inl ⟨now,hm⟩)
    · refine .inr (.inr ⟨now,hm,hx,h.lapsed c₁ now ?_⟩)
      rw [he]
      simp [hm]
  · exact fun l₁ l₂ b claim response he => h.replay he
  · intro l₁ l₂ b claim hash he
    have hist := h.refines
    rw [he] at hist
    obtain ⟨t,_,ht,ha⟩ := hist.before
    cases ha with
    | mismatched hne =>
      obtain ⟨l,since,hl,hkeep,_⟩ := ht.held
      exact ⟨_,since,⟨l,_,hl,hkeep⟩,hne⟩
  · exact fun c => Nat.le_trans (Nat.le_add_right _ _) (h.rounds c)
  · intro c call hc
    cases hp : s.pending with
    | none =>
      obtain ⟨s',hs'⟩ := advance_enabled hp c call
      exact .inl ⟨s',by simp [Store.step, hc, hs']⟩
    | some p =>
      obtain ⟨_,o,ho⟩ := h.ready p.1 p.2 hp
      by_cases hpc : p.1 = c
      · cases (hpc ▸ hc).symm.trans ho
        exact .inl ⟨_,by simp [Store.step, hc]; rfl⟩
      · exact .inr ⟨p.1,p.2,o,hpc,rfl,ho⟩
  · exact fun c acts t hrun hbegin => (run_fuel h c hrun hbegin).2

end Moves

/-- A key is claimed, reused with another body, completed and replayed; a day later it is
claimed again. -/
def keyLifetime : List (Action Nat Nat) :=
  [.begin 0 (.claim (some "a")), .advance 0, .advance 0, .advance 0,
   .begin 1 (.claim (some "b")), .advance 1, .advance 1, .advance 1, .advance 1, .advance 1, .advance 1,
   .begin 2 (.complete (some ⟨201, some 5⟩)), .advance 2, .advance 2,
   .begin 3 (.claim (some "a")), .advance 3, .advance 3, .advance 3, .advance 3, .advance 3, .advance 3,
   .tick 86400000,
   .begin 4 (.claim (some "b")), .advance 4, .advance 4, .advance 4, .advance 4, .advance 4]

theorem claimsExclude_of_keyLifetime :
    ∃ s, Run Store.step Always Store.initial keyLifetime s ∧ ClaimsExclude s ∧
      s.answers = [(0, .fresh), (1, .mismatch), (2, .settled), (3, .replay (some ⟨201, some 5⟩)), (4, .fresh)] := by
  have hrun : ∃ s, exec Store.step Always Store.initial keyLifetime = some s ∧
      s.answers = [(0, .fresh), (1, .mismatch), (2, .settled), (3, .replay (some ⟨201, some 5⟩)), (4, .fresh)] :=
    ⟨_,rfl,by decide⟩
  obtain ⟨s,hs,ha⟩ := hrun
  exact ⟨s,Run.of_exec hs,claimsExclude_of_run (Run.of_exec hs),ha⟩

end Nivara.Idempotency
