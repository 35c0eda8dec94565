import Mathlib.Algebra.BigOperators.Group.Finset.Piecewise
import Mathlib.Algebra.Order.BigOperators.Group.Finset
import Nivara.Scheduler.Custody

/-! How long a due job waits. Claims go by `run_after`, and a job that has been claimed is not due again within its lease, so
that within a lease a due job is only passed over by what was before it when the lease began. -/
namespace Nivara.Scheduler
open Transactions

variable {ι π : Type}

/-- The job may be claimed before one that has been due since `due`, within a lease from `since` on. -/
def Job.isAhead (since due : Int) (job : Job π) : Bool :=
  job.runAfter ≤ due ∧ (job.status = .ready ∨ (job.status = .active ∧ job.lockedAt.any (· < since)))

def JobEvent.isSince (since : Int) : JobEvent → Bool
  | .returned now => since ≤ now
  | _ => false

namespace Queue

def ahead (q : Queue ι π) (k : Nat) (since due : Int) : Nat :=
  ∑ k' ∈ Finset.range q.table.size, if k' = k then 0 else ((q.table.committed k').any (Job.isAhead since due)).toNat

def oldClaims (q : Queue ι π) (since : Int) : Nat :=
  ∑ k ∈ Finset.range q.table.size, ((q.table.pending k).any fun p => p.2.lockedAt.any (· < since)).toNat

/-- How many claimed jobs have been in somebody's hands since before. Such a job may fail late, and be put back before `k`. -/
def oldHands (q : Queue ι π) (since : Int) : Nat := q.hands.countP (·.now < since)

def passed (q : Queue ι π) (k : Nat) (since : Int) : Nat :=
  ∑ k' ∈ Finset.range q.table.size, if k' = k then 0 else (q.trail k').countP (·.isSince since)

/-- The step does not claim `k`, which is due; no more than a lease goes by, and `Math.random()` is not negative. -/
def passesOver (k : Nat) (since due : Int) (q : Queue ι π) : QueueAction ι π → Prop
  | .claim _ _ picks => k ∈ q.candidates ∧ q.runAfter k ≤ due ∧ k ∉ picks
  | .fail _ _ random => 0 ≤ random
  | .tick now => now ≤ since + leaseMs
  | _ => True

end Queue

def QueueAction.isEarly (due : Int) : QueueAction ι π → Bool
  | .enqueue _ input => input.runAfter.any (· ≤ due)
  | _ => false

section Rows
variable {since due : Int} {job : Job π}

private theorem isAhead_iff : job.isAhead since due = true ↔
    job.runAfter ≤ due ∧ (job.status = .ready ∨ (job.status = .active ∧ ∃ at', job.lockedAt = some at' ∧ at' < since)) := by
  simp [Job.isAhead, Option.any_eq_true]

private theorem isAhead_of_isDue {now : Int} (hdue : job.isDue now = true) (hnow : now ≤ since + leaseMs) (h : job.runAfter ≤ due) :
    job.isAhead since due = true := by
  refine isAhead_iff.mpr ⟨h,?_⟩
  rcases Job.isDue_iff.mp hdue with ⟨hready,_⟩ | ⟨hactive,at',hat,hlt⟩
  · exact .inl hready
  · exact .inr ⟨hactive,at',hat,by omega⟩

private theorem isAhead_lease {now : Int} (hnow : since ≤ now) : (job.lease now).isAhead since due = false := by
  rw [Bool.eq_false_iff]
  intro h
  obtain ⟨_,hready | ⟨_,at',hat,hlt⟩⟩ := isAhead_iff.mp h
  · cases hready
  · cases hat
    omega

private theorem isAhead_of_lease {now : Int} (hdue : job.isDue now = true) (hnow : now < since)
    (h : (job.lease now).isAhead since due = true) : job.isAhead since due = true := by
  refine isAhead_of_isDue hdue ?_ (isAhead_iff.mp h).1
  simp only [leaseMs]
  omega

private theorem isAhead_completed : (job.completed).isAhead since due = false := by
  simp [Job.isAhead, Job.completed]

private theorem isAhead_buried (message : String) : (job.buried message).isAhead since due = false := by
  simp [Job.isAhead, Job.buried]

private theorem isAhead_retried (message : String) {runAfter : Int} (h : due < runAfter) :
    (job.retried message runAfter).isAhead since due = false := by
  simp [Job.isAhead, Job.retried]
  omega

end Rows

namespace Queue
variable [DecidableEq ι] {q q' : Queue ι π} {i : ι} {since due : Int} {k : Nat}

/-- What is true of the open claims and of the trails, however late the holders settle. -/
structure Locked (q : Queue ι π) : Prop where
  leased : ∀ i k v, q.table.own i k = some v → ∃ now picks, q.claiming i = some (now, picks) ∧ k ∈ picks ∧
    ∃ old, q.table.committed k = some old ∧ old.isDue now = true ∧ v = old.lease now
  batch : ∀ i now picks, q.claiming i = some (now, picks) →
    picks.Nodup ∧ now ≤ q.clock ∧ ∀ k ∈ picks, ∃ v, q.table.own i k = some v
  unborn : ∀ k, q.table.committed k = none → q.trail k = []
  held : ∀ h ∈ q.hands, ∃ job, q.table.committed h.job.id = some job
  past : ∀ k now, JobEvent.returned now ∈ q.trail k → now ≤ q.clock

namespace Locked

private theorem initial : (initial : Queue ι π).Locked :=
  ⟨fun _ _ _ h => (by cases h),fun _ _ _ h => (by cases h),fun _ _ => rfl,fun _ h => (by cases h),fun _ _ h => (by cases h)⟩

private theorem picked (hl : q.Locked) {now : Int} {picks : List Nat} (hopen : q.claiming i = some (now, picks)) (hk : k ∈ picks) :
    ∃ old, q.table.committed k = some old ∧ old.isDue now = true ∧ q.table.own i k = some (old.lease now) := by
  obtain ⟨v,hv⟩ := (hl.batch i now picks hopen).2.2 k hk
  obtain ⟨now',picks',hopen',_,old,hold,hdue,rfl⟩ := hl.leased i k v hv
  cases hopen.symm.trans hopen'
  exact ⟨old,hold,hdue,hv⟩

private theorem own_none (hl : q.Locked) {now : Int} {picks : List Nat} (hopen : q.claiming i = some (now, picks)) (hk : k ∉ picks) :
    q.table.own i k = none := by
  cases hown : q.table.own i k with
  | none => rfl
  | some v =>
    obtain ⟨now',picks',hopen',hk',_⟩ := hl.leased i k v hown
    cases hopen.symm.trans hopen'
    exact absurd hk' hk

private theorem own_idle (hl : q.Locked) (hidle : q.claiming i = none) (k : Nat) : q.table.own i k = none := by
  cases hown : q.table.own i k with
  | none => rfl
  | some v =>
    obtain ⟨_,_,hopen,_⟩ := hl.leased i k v hown
    cases hidle.symm.trans hopen

/-- The transaction of `i` ends, and the other claims are as they were. -/
private theorem drop (hl : q.Locked) {table : Table ι (Job π)} (hself : ∀ k, table.own i k = none)
    (hother : ∀ j k, j ≠ i → table.own j k = q.table.own j k)
    (hkept : ∀ j k v, j ≠ i → q.table.own j k = some v → table.committed k = q.table.committed k) :
    (∀ j k v, table.own j k = some v → ∃ now picks, Function.update q.claiming i none j = some (now, picks) ∧
      k ∈ picks ∧ ∃ old, table.committed k = some old ∧ old.isDue now = true ∧ v = old.lease now) ∧
    ∀ j now picks, Function.update q.claiming i none j = some (now, picks) →
      picks.Nodup ∧ now ≤ q.clock ∧ ∀ k ∈ picks, ∃ v, table.own j k = some v := by
  constructor
  · intro j k v hown
    have hji : j ≠ i := by
      rintro rfl
      cases (hself k).symm.trans hown
    rw [hother j k hji] at hown
    rw [Function.update_of_ne hji, hkept j k v hji hown]
    exact hl.leased j k v hown
  · intro j now picks hj
    have hji : j ≠ i := by
      rintro rfl
      simp at hj
    rw [Function.update_of_ne hji] at hj
    obtain ⟨hnodup,hnow,hown⟩ := hl.batch j now picks hj
    refine ⟨hnodup,hnow,fun k hk => ?_⟩
    rw [hother j k hji]
    exact hown k hk

private theorem enqueue (hl : q.Locked) (tenantId : Uuid) (input : EnqueueInput π) :
    ({ q with table := q.table.append (enqueued tenantId input q.clock) } : Queue ι π).Locked where
  leased j k v hown := by
    obtain ⟨now,picks,hopen,hk,old,hold,hrest⟩ := hl.leased j k v hown
    exact ⟨now,picks,hopen,hk,old,Table.append_committed_of_committed _ _ hold,hrest⟩
  batch := hl.batch
  unborn k hk := by
    rw [Table.append_committed] at hk
    split at hk
    · cases hk
    · exact hl.unborn k hk
  held h hh := by
    obtain ⟨job,hjob⟩ := hl.held h hh
    exact ⟨job,Table.append_committed_of_committed _ _ hjob⟩
  past := hl.past

private theorem claim (hl : q.Locked) {batch : Nat} {picks : List Nat} (hidle : q.claiming i = none)
    (htakes : q.takes batch picks = true) : (q.leased i picks).Locked := by
  obtain ⟨hnodup,hcand,_⟩ := takes_iff.mp htakes
  have hfree : q.table.free i picks = true := by
    rw [Table.free_iff]
    intro k hk j r hp
    cases (mem_candidates.mp (hcand k hk)).1.symm.trans hp
  refine ⟨fun j k v hown => ?_,fun j now ps hj => ?_,hl.unborn,hl.held,hl.past⟩
  · by_cases hji : j = i
    · subst hji
      rcases Table.own_write_cases _ _ _ hown with ⟨old,hk,hvis,hdue,rfl⟩ | hold
      · rw [Table.visible_of_no_own _ _ _ (hl.own_idle hidle k)] at hvis
        exact ⟨q.clock,picks,by simp [Queue.leased],hk,old,hvis,hdue,rfl⟩
      · cases (hl.own_idle hidle k).symm.trans hold
    · simp only [Queue.leased, Function.update_of_ne hji] at hown ⊢
      rw [Table.own_write_other _ _ _ _ hji hfree] at hown
      exact hl.leased j k v hown
  · by_cases hji : j = i
    · subst hji
      simp only [Queue.leased, Function.update_self, Option.some.injEq, Prod.mk.injEq] at hj
      obtain ⟨rfl,rfl⟩ := hj
      refine ⟨hnodup,Int.le_refl _,fun k hk => ?_⟩
      obtain ⟨_,job,hjob,hdue⟩ := mem_candidates.mp (hcand k hk)
      have hvis : q.table.visible j k = some job := by
        rw [Table.visible_of_no_own _ _ _ (hl.own_idle hidle k), hjob]
      exact ⟨_,Table.own_write_picked _ _ _ hk hvis hdue⟩
    · simp only [Queue.leased, Function.update_of_ne hji] at hj ⊢
      obtain ⟨hnodup,hnow,hown⟩ := hl.batch j now ps hj
      refine ⟨hnodup,hnow,fun k hk => ?_⟩
      rw [Table.own_write_other _ _ _ _ hji hfree]
      exact hown k hk

private theorem committed (hl : q.Locked) {now : Int} {picks : List Nat} (hopen : q.claiming i = some (now, picks)) (k : Nat) :
    (k ∈ picks ∧ ∃ old, q.table.committed k = some old ∧ old.isDue now = true ∧
      (q.handedOut i now picks).table.committed k = some (old.lease now)) ∨
    (k ∉ picks ∧ (q.handedOut i now picks).table.committed k = q.table.committed k) := by
  by_cases hk : k ∈ picks
  · obtain ⟨old,hold,hdue,hown⟩ := hl.picked hopen hk
    exact .inl ⟨hk,old,hold,hdue,q.table.visible_of_own i k hown⟩
  · exact .inr ⟨hk,q.table.visible_of_no_own i k (hl.own_none hopen hk)⟩

private theorem commit (hl : q.Locked) {now : Int} {picks : List Nat} (hopen : q.claiming i = some (now, picks)) :
    (q.handedOut i now picks).Locked := by
  obtain ⟨_,hnow,_⟩ := hl.batch i now picks hopen
  obtain ⟨hleased,hbatch⟩ := hl.drop (Table.own_commit_self q.table i) (fun j k hji => Table.own_commit_other _ _ _ _ hji)
    (fun j k v hji hown => Table.visible_of_no_own _ _ _ (Table.own_exclusive _ _ _ _ hown (Ne.symm hji)))
  refine ⟨hleased,hbatch,fun k hk => ?_,fun h hh => ?_,fun k at' hat => ?_⟩
  · rcases hl.committed hopen k with ⟨_,_,_,_,hnew⟩ | ⟨hpick,hsame⟩
    · cases hnew.symm.trans hk
    · simp only [handedOut, if_neg hpick]
      exact hl.unborn k (hsame.symm.trans hk)
  · have hrow {k : Nat} {job : Job π} (hjob : q.table.committed k = some job) :
        ∃ job', (q.handedOut i now picks).table.committed k = some job' := by
      rcases hl.committed hopen k with ⟨_,_,_,_,hnew⟩ | ⟨_,hsame⟩
      · exact ⟨_,hnew⟩
      · exact ⟨_,hsame.trans hjob⟩
    rcases List.mem_append.mp hh with hh | hh
    · exact hrow (hl.held h hh).choose_spec
    · obtain ⟨k,hk,v,hv,rfl⟩ := mem_batch.mp hh
      obtain ⟨old,hold,_⟩ := hl.picked hopen hk
      exact hrow hold
  · simp only [handedOut] at hat
    split at hat
    · rcases List.mem_append.mp hat with hat | hat
      · exact hl.past k at' hat
      · cases List.mem_singleton.mp hat
        exact hnow
    · exact hl.past k at' hat

private theorem rollback (hl : q.Locked) (i : ι) : (q.rolledBack i).Locked := by
  obtain ⟨hleased,hbatch⟩ := hl.drop (Table.own_rollback_self q.table i)
    (fun j k hji => Table.own_rollback_other _ _ _ _ hji) (fun j k v _ _ => rfl)
  exact ⟨hleased,hbatch,hl.unborn,hl.held,hl.past⟩

private theorem settle (hl : q.Locked) {n : Nat} {h : Hand ι π} {f : Job π → Job π} {e : JobEvent} (hhand : q.hands[n]? = some h)
    (hfree : q.table.pending h.job.id = none) (he : e.isReturned = false) : (q.settled n h.job.id f e).Locked := by
  have hrow : ∃ job, q.table.committed h.job.id = some job := hl.held h (List.mem_of_getElem? hhand)
  refine ⟨fun j k v hown => ?_,hl.batch,fun k hk => ?_,fun h' hh' => ?_,fun k now hnow => ?_⟩
  · obtain ⟨now,picks,hopen,hk,old,hold,hrest⟩ := hl.leased j k v hown
    refine ⟨now,picks,hopen,hk,old,?_,hrest⟩
    have hne : k ≠ h.job.id := by
      rintro rfl
      cases hfree.symm.trans ((Table.own_eq_some_iff _ _ _).mp hown)
    simp [settled, Table.amend_committed, hne, hold]
  · have hne : k ≠ h.job.id := by
      rintro rfl
      obtain ⟨job,hjob⟩ := hrow
      simp [settled, Table.amend_committed, hjob] at hk
    simp only [settled, Table.amend_committed, if_neg hne, Function.update_of_ne hne] at hk ⊢
    exact hl.unborn k hk
  · obtain ⟨job,hjob⟩ := hl.held h' (List.mem_of_mem_eraseIdx hh')
    simp only [settled, Table.amend_committed]
    split
    · obtain ⟨old,hold⟩ := hrow
      exact ⟨f old,by rw [hold]; rfl⟩
    · exact ⟨job,hjob⟩
  · simp only [settled, Function.update_apply] at hnow
    split at hnow
    · rename_i heq
      rcases List.mem_append.mp hnow with hnow | hnow
      · exact hl.past _ now hnow
      · rw [← List.mem_singleton.mp hnow] at he
        cases he
    · exact hl.past k now hnow

private theorem turn {a : QueueAction ι π} (hl : q.Locked) (ht : q.Turn a q') : q'.Locked := by
  cases ht with
  | tick hnow =>
    refine ⟨hl.leased,fun j at' picks hj => ?_,hl.unborn,hl.held,fun k at' hat => (hl.past k at' hat).trans hnow⟩
    obtain ⟨hnodup,hat,hown⟩ := hl.batch j at' picks hj
    exact ⟨hnodup,hat.trans hnow,hown⟩
  | enqueue tenantId input => exact hl.enqueue tenantId input
  | claim hidle htakes => exact hl.claim hidle htakes
  | commit hopen => exact hl.commit hopen
  | rollback i => exact hl.rollback i
  | settle _ hhand hfree hs => exact hl.settle hhand hfree (by cases hs <;> rfl)
  | crash i =>
    have hr := hl.rollback i
    exact ⟨hr.leased,hr.batch,hr.unborn,fun h hh => hr.held h (List.mem_of_mem_filter hh),hr.past⟩

end Locked

/-! ## What may still pass a job over -/

private theorem toNat_le {a b : Bool} (h : a = true → b = true) : a.toNat ≤ b.toNat := by
  cases a with
  | false => exact Nat.zero_le _
  | true => rw [h rfl]

private def row (q : Queue ι π) (k : Nat) (since due : Int) (k' : Nat) : Nat :=
  (if k' = k then 0 else ((q.table.committed k').any (Job.isAhead since due)).toNat) +
    ((q.table.pending k').any fun p => p.2.lockedAt.any (· < since)).toNat +
    (if k' = k then 0 else (q.trail k').countP (·.isSince since))

private def mass (q : Queue ι π) (k : Nat) (since due : Int) : Nat :=
  ∑ k' ∈ Finset.range q.table.size, q.row k since due k' + q.oldHands since

omit [DecidableEq ι] in
private theorem mass_eq (q : Queue ι π) (k : Nat) (since due : Int) :
    q.mass k since due = q.ahead k since due + q.oldClaims since + q.passed k since + q.oldHands since := by
  simp only [mass, row, Finset.sum_add_distrib, ahead, oldClaims, passed]

omit [DecidableEq ι] in
private theorem mass_le (hsize : q'.table.size = q.table.size) (hrow : ∀ k', q'.row k since due k' ≤ q.row k since due k')
    (hhands : q'.oldHands since ≤ q.oldHands since) : q'.mass k since due ≤ q.mass k since due := by
  rw [mass, mass, hsize]
  exact Nat.add_le_add (Finset.sum_le_sum fun k' _ => hrow k') hhands

/-- A lease is running, and the claims made in it have taken what was ahead. -/
structure Within (q : Queue ι π) (k : Nat) (since due : Int) : Prop where
  locked : q.Locked
  begun : since ≤ q.clock
  ends : q.clock ≤ since + leaseMs
  targets : ∀ i now picks, q.claiming i = some (now, picks) → since ≤ now → ∀ k' ∈ picks, k' ≠ k ∧
    ∀ job, q.table.committed k' = some job → job.isAhead since due = true

namespace Within

private theorem enqueue (hw : q.Within k since due) (hdue : due < since) (tenantId : Uuid) (input : EnqueueInput π) :
    ({ q with table := q.table.append (enqueued tenantId input q.clock) } : Queue ι π).mass k since due ≤
      q.mass k since due + if input.runAfter.any (· ≤ due) then 1 else 0 := by
  have hsame (k' : Nat) (hk' : k' ∈ Finset.range q.table.size) :
      row { q with table := q.table.append (enqueued tenantId input q.clock) } k since due k' = q.row k since due k' := by
    have hne : k' ≠ q.table.size := (Finset.mem_range.mp hk').ne
    simp only [row, Table.append_committed, if_neg hne, Table.append_pending]
  have hnew : row { q with table := q.table.append (enqueued tenantId input q.clock) } k since due q.table.size ≤
      if input.runAfter.any (· ≤ due) then 1 else 0 := by
    have hpending : q.table.pending q.table.size = none := q.table.pending_fresh _ (Nat.le_refl _)
    have htrail : q.trail q.table.size = [] := hw.locked.unborn _ (q.table.committed_fresh _ (Nat.le_refl _))
    have hearly : (enqueued tenantId input q.clock).isAhead since due = true → input.runAfter.any (· ≤ due) = true := by
      intro h
      have hle : input.runAfter.getD q.clock ≤ due := (isAhead_iff.mp h).1
      cases hr : input.runAfter with
      | none =>
        rw [hr] at hle
        have := hw.begun
        simp only [Option.getD_none] at hle
        omega
      | some r =>
        rw [hr] at hle
        simpa using hle
    simp only [row, Table.append_committed, if_pos, Option.any_some, Table.append_pending, hpending, htrail]
    by_cases h : (enqueued tenantId input q.clock).isAhead since due = true
    · rw [hearly h, h]
      split <;> simp
    · simp [h]
  change ∑ k' ∈ Finset.range (q.table.size + 1), row _ k since due k' + q.oldHands since ≤ _
  rw [Finset.sum_range_succ, Finset.sum_congr rfl hsame, mass, Nat.add_right_comm]
  exact Nat.add_le_add_left hnew _

private theorem claim (hw : q.Within k since due) (picks : List Nat) : (q.leased i picks).mass k since due ≤ q.mass k since due := by
  refine mass_le rfl (fun k' => ?_) (Nat.le_refl _)
  have hpending : ((q.leased i picks).table.pending k').any (fun p => p.2.lockedAt.any (· < since)) →
      (q.table.pending k').any fun p => p.2.lockedAt.any (· < since) := by
    simp only [Queue.leased, Table.write]
    split
    · cases hv : (q.table.visible i k').filter (Job.isDue q.clock) with
      | none => simp
      | some job =>
        have := hw.begun
        simp [Job.lease]
        omega
    · exact id
  exact Nat.add_le_add (Nat.add_le_add (Nat.le_refl _) (toNat_le hpending)) (Nat.le_refl _)

omit [DecidableEq ι] in
private theorem oldHands_append (since : Int) (q : Queue ι π) (hands : List (Hand ι π)) :
    ({ q with hands := q.hands ++ hands } : Queue ι π).oldHands since = q.oldHands since + hands.countP (·.now < since) :=
  List.countP_append

private theorem row_unpicked (hl : q.Locked) {now : Int} {picks : List Nat} (hopen : q.claiming i = some (now, picks)) {k' : Nat}
    (hk' : k' ∉ picks) : (q.handedOut i now picks).row k since due k' = q.row k since due k' := by
  have hown := hl.own_none hopen hk'
  have hcommitted : (q.handedOut i now picks).table.committed k' = q.table.committed k' := q.table.visible_of_no_own i k' hown
  have hpending : (q.handedOut i now picks).table.pending k' = q.table.pending k' := by
    simp [handedOut, Table.commit, hown]
  have htrail : (q.handedOut i now picks).trail k' = q.trail k' := if_neg hk'
  rw [row, row, hcommitted, hpending, htrail]

private theorem row_picked (k : Nat) (since due : Int) (hl : q.Locked) {now : Int} {picks : List Nat} (hopen : q.claiming i = some (now, picks)) {k' : Nat}
    (hk' : k' ∈ picks) : ∃ old, q.table.committed k' = some old ∧ old.isDue now = true ∧
      q.row k since due k' = (if k' = k then 0 else (old.isAhead since due).toNat) + (decide (now < since)).toNat +
        (if k' = k then 0 else (q.trail k').countP (·.isSince since)) ∧
      (q.handedOut i now picks).row k since due k' = (if k' = k then 0 else ((old.lease now).isAhead since due).toNat) +
        (if k' = k then 0 else (q.trail k').countP (·.isSince since) + (decide (since ≤ now)).toNat) := by
  obtain ⟨old,hold,hdue,hown⟩ := hl.picked hopen hk'
  refine ⟨old,hold,hdue,?_,?_⟩
  · have hpending := (Table.own_eq_some_iff _ _ _).mp hown
    simp only [row, hold, hpending, Option.any_some, Job.lease]
  · have hcommitted : (q.handedOut i now picks).table.committed k' = some (old.lease now) := q.table.visible_of_own i k' hown
    have hpending : (q.handedOut i now picks).table.pending k' = none := by
      simp [handedOut, Table.commit, hown]
    have htrail : (q.handedOut i now picks).trail k' = q.trail k' ++ [.returned now] := if_pos hk'
    simp only [row, hcommitted, hpending, htrail, Option.any_some, Option.any_none, Bool.toNat_false, Nat.add_zero, List.countP_append,
      List.countP_singleton, JobEvent.isSince]
    by_cases h : since ≤ now <;> simp [h]

private theorem commit_new (hw : q.Within k since due) {now : Int} {picks : List Nat} (hopen : q.claiming i = some (now, picks))
    (hnow : since ≤ now) : (q.handedOut i now picks).mass k since due ≤ q.mass k since due := by
  refine mass_le rfl (fun k' => ?_) ?_
  · by_cases hk' : k' ∈ picks
    · obtain ⟨old,hold,_,hbefore,hafter⟩ := row_picked k since due hw.locked hopen hk'
      obtain ⟨hne,hahead⟩ := hw.targets i now picks hopen hnow k' hk'
      rw [hbefore, hafter, if_neg hne, if_neg hne, if_neg hne, if_neg hne, hahead old hold, isAhead_lease hnow, decide_eq_true hnow]
      simp only [Bool.toNat_true, Bool.toNat_false]
      omega
    · exact (row_unpicked hw.locked hopen hk').le
  · have hbatch : (q.batch i now picks).countP (·.now < since) = 0 := by
      refine List.countP_eq_zero.mpr fun h hh => ?_
      obtain ⟨_,_,_,_,rfl⟩ := mem_batch.mp hh
      simpa using hnow
    exact ((oldHands_append since q (q.batch i now picks)).trans (by rw [hbatch, Nat.add_zero])).le

private theorem commit_old (hw : q.Within k since due) {now : Int} {picks : List Nat} (hopen : q.claiming i = some (now, picks))
    (hnow : now < since) : (q.handedOut i now picks).mass k since due ≤ q.mass k since due := by
  obtain ⟨hnodup,_,hown⟩ := hw.locked.batch i now picks hopen
  -- each row gives back the claim on it, and the claim goes into a hand
  have hrow (k' : Nat) : (q.handedOut i now picks).row k since due k' + (if k' ∈ picks then 1 else 0) ≤ q.row k since due k' := by
    by_cases hk' : k' ∈ picks
    · obtain ⟨old,_,hdue,hbefore,hafter⟩ := row_picked k since due hw.locked hopen hk'
      have hahead := toNat_le fun h : (old.lease now).isAhead since due = true => isAhead_of_lease hdue hnow h
      rw [hbefore, hafter, if_pos hk']
      have hlate : ¬ since ≤ now := by omega
      simp only [hnow, hlate, decide_true, decide_false, Bool.toNat_true, Bool.toNat_false, Nat.add_zero]
      split <;> omega
    · rw [row_unpicked hw.locked hopen hk', if_neg hk', Nat.add_zero]
  have hpicks : picks.length ≤ ∑ k' ∈ Finset.range q.table.size, if k' ∈ picks then 1 else 0 := by
    rw [← Finset.card_filter, ← List.toFinset_card_of_nodup hnodup]
    refine Finset.card_le_card fun k' hk' => ?_
    have hmem := List.mem_toFinset.mp hk'
    obtain ⟨v,hv⟩ := hown k' hmem
    exact Finset.mem_filter.mpr ⟨Finset.mem_range.mpr (q.table.lt_size_of_own i k' hv),hmem⟩
  have hbatch : (q.batch i now picks).countP (·.now < since) ≤ picks.length :=
    List.countP_le_length.trans (List.length_filterMap_le _ _)
  have hsum := Finset.sum_le_sum fun k' (_ : k' ∈ Finset.range q.table.size) => hrow k'
  rw [Finset.sum_add_distrib] at hsum
  have hhands := oldHands_append since q (q.batch i now picks)
  change ∑ k' ∈ Finset.range q.table.size, (q.handedOut i now picks).row k since due k' +
    ({ q with hands := q.hands ++ q.batch i now picks } : Queue ι π).oldHands since ≤ _
  rw [hhands, mass]
  omega

private theorem rolledBack (q : Queue ι π) (i : ι) : (q.rolledBack i).mass k since due ≤ q.mass k since due := by
  refine mass_le rfl (fun k' => ?_) (Nat.le_refl _)
  refine Nat.add_le_add (Nat.add_le_add (Nat.le_refl _) (toNat_le ?_)) (Nat.le_refl _)
  simp only [Queue.rolledBack, Table.rollback]
  split
  · simp
  · exact id

private theorem crashed (q : Queue ι π) (i : ι) : (q.crashed i).mass k since due ≤ q.mass k since due := by
  have hhands : (q.crashed i).oldHands since ≤ (q.rolledBack i).oldHands since := List.Sublist.countP_le List.filter_sublist
  exact le_trans (mass_le (q := q.rolledBack i) rfl (fun _ => Nat.le_refl _) hhands) (rolledBack q i)

omit [DecidableEq ι] in
/-- A job that is settled by who has claimed it since is not ahead any more; who has held it before may put it back. -/
private theorem settled {n : Nat} {h : Hand ι π} {f : Job π → Job π} {e : JobEvent} (hhand : q.hands[n]? = some h)
    (he : e.isReturned = false) (hf : since ≤ h.now → ∀ job : Job π, (f job).isAhead since due = false) :
    (q.settled n h.job.id f e).mass k since due ≤ q.mass k since due := by
  have hcount (k' : Nat) : ((q.settled n h.job.id f e).trail k').countP (·.isSince since) = (q.trail k').countP (·.isSince since) := by
    have hnone : e.isSince since = false := by cases e <;> first | rfl | cases he
    simp only [Queue.settled, Function.update_apply]
    split
    · rename_i heq
      rw [List.countP_append, List.countP_singleton, hnone, heq]
      rfl
    · rfl
  have hrow (k' : Nat) : (q.settled n h.job.id f e).row k since due k' ≤
      q.row k since due k' + (if k' = h.job.id ∧ h.now < since then 1 else 0) := by
    simp only [row, hcount]
    by_cases hk' : k' = h.job.id
    · subst hk'
      simp only [Queue.settled, Table.amend_committed, if_pos, Table.amend_pending, true_and]
      by_cases hold : h.now < since
      · rw [if_pos hold]
        have hone := Bool.toNat_le (((q.table.committed h.job.id).map f).any (Job.isAhead since due))
        split <;> omega
      · have hnone : (((q.table.committed h.job.id).map f).any (Job.isAhead since due)) = false := by
          cases q.table.committed h.job.id with
          | none => rfl
          | some job => exact hf (not_lt.mp hold) job
        rw [hnone, if_neg hold]
        simp
    · simp [Queue.settled, Table.amend_committed, hk']
  have hhands : (q.settled n h.job.id f e).oldHands since + (if h.now < since then 1 else 0) = q.oldHands since := by
    simp only [oldHands, Queue.settled]
    have hperm := List.getElem_cons_eraseIdx_perm (List.getElem?_eq_some_iff.mp hhand).1
    rw [← hperm.countP_eq, List.countP_cons, (List.getElem?_eq_some_iff.mp hhand).2]
    simp
  have hsum := Finset.sum_le_sum fun k' (_ : k' ∈ Finset.range q.table.size) => hrow k'
  rw [Finset.sum_add_distrib] at hsum
  have hone : (∑ k' ∈ Finset.range q.table.size, if k' = h.job.id ∧ h.now < since then 1 else 0) ≤ if h.now < since then 1 else 0 := by
    by_cases hold : h.now < since
    · simp only [hold, and_true, if_true, Finset.sum_ite_eq']
      split <;> omega
    · simp [hold]
  change ∑ k' ∈ Finset.range q.table.size, (q.settled n h.job.id f e).row k since due k' +
    (q.settled n h.job.id f e).oldHands since ≤ _
  rw [mass]
  omega

private theorem targets_of (hw : q.Within k since due)
    (hopen : ∀ j now picks, q'.claiming j = some (now, picks) → q.claiming j = some (now, picks) ∧
      ∀ k' ∈ picks, q'.table.committed k' = q.table.committed k') :
    ∀ j now picks, q'.claiming j = some (now, picks) → since ≤ now → ∀ k' ∈ picks, k' ≠ k ∧
      ∀ job, q'.table.committed k' = some job → job.isAhead since due = true := by
  intro j now picks hj hnow k' hk'
  obtain ⟨hj',hrows⟩ := hopen j now picks hj
  obtain ⟨hne,hahead⟩ := hw.targets j now picks hj' hnow k' hk'
  exact ⟨hne,fun job hjob => hahead job ((hrows k' hk').symm.trans hjob)⟩

private theorem claiming_of_update {j : ι} {c : Int × List Nat} (h : Function.update q.claiming i none j = some c) :
    j ≠ i ∧ q.claiming j = some c := by
  have hji : j ≠ i := by
    rintro rfl
    simp at h
  rw [Function.update_of_ne hji] at h
  exact ⟨hji,h⟩

private theorem targets_claim (hw : q.Within k since due) {batch : Nat} {picks : List Nat} (htakes : q.takes batch picks = true)
    (hk : k ∈ q.candidates) (hdue : q.runAfter k ≤ due) (hnot : k ∉ picks) :
    ∀ j now ps, (q.leased i picks).claiming j = some (now, ps) → since ≤ now → ∀ k' ∈ ps, k' ≠ k ∧
      ∀ job, q.table.committed k' = some job → job.isAhead since due = true := by
  obtain ⟨_,hcand,_,horder⟩ := takes_iff.mp htakes
  intro j now ps hj hnow k' hk'
  by_cases hji : j = i
  · subst hji
    simp only [Queue.leased, Function.update_self, Option.some.injEq, Prod.mk.injEq] at hj
    obtain ⟨rfl,rfl⟩ := hj
    refine ⟨fun heq => hnot (heq ▸ hk'),fun job hjob => ?_⟩
    obtain ⟨_,job',hjob',hisDue⟩ := mem_candidates.mp (hcand k' hk')
    cases hjob.symm.trans hjob'
    have hle := horder k' hk' k hk hnot
    have hrun : q.runAfter k' = job.runAfter := by simp [Queue.runAfter, hjob]
    exact isAhead_of_isDue hisDue hw.ends (by omega)
  · simp only [Queue.leased, Function.update_of_ne hji] at hj
    exact hw.targets j now ps hj hnow k' hk'

private theorem fail_cases {n : Nat} {message : String} {random : ℚ} (h : q.step (.fail n message random) = some q') :
    ∃ hand, q.hands[n]? = some hand ∧ (q' = q.settled n hand.job.id (Job.buried message) .died ∨
      ∃ runAfter, nextRunAfter hand.job.attempts hand.now random = some runAfter ∧
        q' = q.settled n hand.job.id (Job.retried message runAfter) (.failed runAfter)) := by
  obtain ⟨hand,hhand,hs⟩ := Option.bind_eq_some_iff.mp h
  refine ⟨hand,hhand,?_⟩
  simp only [settle] at hs
  split at hs
  · exact .inl (Option.some.inj (Option.ite_none_right_eq_some.mp hs).2).symm
  · obtain ⟨runAfter,hnext,hs⟩ := Option.bind_eq_some_iff.mp hs
    exact .inr ⟨runAfter,hnext,(Option.some.inj (Option.ite_none_right_eq_some.mp hs).2).symm⟩

private theorem mass_settle (hdue : due < since) {a : QueueAction ι π} (hok : passesOver k since due q a) (hs : q.step a = some q')
    (hplace : a.place.isSome) : q'.mass k since due ≤ q.mass k since due := by
  cases a with
  | complete n =>
    obtain ⟨hand,hhand,hs⟩ := Option.bind_eq_some_iff.mp hs
    obtain ⟨_,⟨⟩⟩ := Option.ite_none_right_eq_some.mp hs
    exact settled hhand rfl fun _ _ => isAhead_completed
  | fail n message random =>
    obtain ⟨hand,hhand,rfl | ⟨runAfter,hnext,rfl⟩⟩ := fail_cases hs
    · exact settled hhand rfl fun _ _ => isAhead_buried message
    · refine settled hhand rfl fun hnow job => isAhead_retried message ?_
      have := le_nextRunAfter hok hnext
      omega
  | _ => cases hplace

private theorem step {a : QueueAction ι π} (hw : q.Within k since due) (hdue : due < since) (hok : passesOver k since due q a)
    (hs : q.step a = some q') :
    q'.Within k since due ∧ q'.mass k since due ≤ q.mass k since due + if a.isEarly due then 1 else 0 := by
  have hlocked := hw.locked.turn (turn_of_step hs)
  have hstill {p : Queue ι π} (h : p.mass k since due ≤ q.mass k since due) (n : Nat) : p.mass k since due ≤ q.mass k since due + n :=
    h.trans (Nat.le_add_right _ _)
  cases turn_of_step hs with
  | tick hnow =>
    refine ⟨⟨hlocked,hw.begun.trans hnow,hok,hw.targets_of fun _ _ _ hj => ⟨hj,fun _ _ => rfl⟩⟩,?_⟩
    exact hstill (p := { q with clock := _ }) (mass_le rfl (fun _ => Nat.le_refl _) (Nat.le_refl _)) _
  | enqueue tenantId input =>
    refine ⟨⟨hlocked,hw.begun,hw.ends,hw.targets_of fun j now picks hj => ⟨hj,fun k' hk' => ?_⟩⟩,hw.enqueue hdue tenantId input⟩
    obtain ⟨v,hv⟩ := (hw.locked.batch j now picks hj).2.2 k' hk'
    simp [Table.append_committed, (q.table.lt_size_of_own j k' hv).ne]
  | claim _ htakes =>
    obtain ⟨hk,hrun,hnot⟩ := hok
    exact ⟨⟨hlocked,hw.begun,hw.ends,hw.targets_claim htakes hk hrun hnot⟩,hstill (hw.claim _) _⟩
  | @commit i now picks hopen =>
    refine ⟨⟨hlocked,hw.begun,hw.ends,hw.targets_of fun j at' ps hj => ?_⟩,?_⟩
    · obtain ⟨hji,hj'⟩ := claiming_of_update hj
      refine ⟨hj',fun k' hk' => ?_⟩
      obtain ⟨v,hv⟩ := (hw.locked.batch j at' ps hj').2.2 k' hk'
      exact Table.visible_of_no_own _ _ _ (Table.own_exclusive _ _ _ _ hv hji.symm)
    · rcases lt_or_ge now since with hlt | hle
      · exact hstill (hw.commit_old hopen hlt) _
      · exact hstill (hw.commit_new hopen hle) _
  | rollback i =>
    exact ⟨⟨hlocked,hw.begun,hw.ends,hw.targets_of fun _ _ _ hj => ⟨(claiming_of_update hj).2,fun _ _ => rfl⟩⟩,
      hstill (rolledBack q i) _⟩
  | @settle _ n h f e hplace hhand hfree hset =>
    refine ⟨⟨hlocked,hw.begun,hw.ends,hw.targets_of fun j now picks hj => ⟨hj,fun k' hk' => ?_⟩⟩,
      hstill (mass_settle hdue hok hs (by rw [hplace]; rfl)) _⟩
    obtain ⟨v,hv⟩ := (hw.locked.batch j now picks hj).2.2 k' hk'
    have hne : k' ≠ h.job.id := by
      rintro rfl
      cases hfree.symm.trans ((Table.own_eq_some_iff _ _ _).mp hv)
    simp [Queue.settled, Table.amend_committed, hne]
  | crash i =>
    exact ⟨⟨hlocked,hw.begun,hw.ends,hw.targets_of fun _ _ _ hj => ⟨(claiming_of_update hj).2,fun _ _ => rfl⟩⟩,
      hstill (crashed q i) _⟩

private theorem run {acts : List (QueueAction ι π)} (hw : q.Within k since due) (hdue : due < since)
    (h : Run Queue.step (passesOver k since due) q acts q') :
    q'.Within k since due ∧ q'.mass k since due ≤ q.mass k since due + acts.countP (·.isEarly due) := by
  induction h with
  | nil => exact ⟨hw,Nat.le_refl _⟩
  | snoc _ hok hs ih =>
    obtain ⟨hwithin,hmass⟩ := ih
    obtain ⟨hwithin',hmass'⟩ := hwithin.step hdue hok hs
    refine ⟨hwithin',?_⟩
    rw [List.countP_append, List.countP_singleton]
    omega

/-- A claim that passes `k` over has taken as many as it may, and only what was ahead. -/
private theorem full (hw : q.Within k since due) (i : ι) {limit : JsNumber} {picks : List Nat} (htakes : q.takes (batchSize limit) picks = true)
    (hk : k ∈ q.candidates) (hdue : q.runAfter k ≤ due) (hnot : k ∉ picks) :
    picks.length = batchSize limit ∧ ∀ k' ∈ picks, (q.table.committed k').any (Job.isAhead since due) = true := by
  obtain ⟨hnodup,hcand,hlen,_⟩ := takes_iff.mp htakes
  refine ⟨?_,fun k' hk' => ?_⟩
  · have hall : (k :: picks).length ≤ q.candidates.length := by
      have hsub : (k :: picks) ⊆ q.candidates := List.cons_subset.mpr ⟨hk,hcand⟩
      exact (List.subperm_of_subset (List.nodup_cons.mpr ⟨hnot,hnodup⟩) hsub).length_le
    rw [List.length_cons] at hall
    omega
  · obtain ⟨_,job,hjob,_⟩ := mem_candidates.mp (hcand k' hk')
    have htarget := hw.targets_claim (i := i) htakes hk hdue hnot i q.clock picks (by simp [Queue.leased]) hw.begun k' hk'
    rw [hjob, Option.any_some]
    exact htarget.2 job hjob

end Within

private theorem locked_of_run {acts : List (QueueAction ι π)} (h : Run Queue.step Always initial acts q) : q.Locked :=
  h.invariant Locked.initial fun _ _ _ hl _ hs => hl.turn (turn_of_step hs)

private theorem within_of_locked (hl : q.Locked) (hsince : q.clock < since) : ({ q with clock := since } : Queue ι π).Within k since due where
  locked := hl.turn (.tick hsince.le)
  begun := Int.le_refl _
  ends := by
    simp only [leaseMs]
    omega
  targets i now picks hopen hnow := by
    have := (hl.batch i now picks hopen).2.1
    omega

private theorem passed_eq_zero (hl : q.Locked) (hsince : q.clock < since) : ({ q with clock := since } : Queue ι π).passed k since = 0 := by
  refine Finset.sum_eq_zero fun k' _ => ?_
  have hnone : (q.trail k').countP (·.isSince since) = 0 := by
    refine List.countP_eq_zero.mpr fun e he hsaid => ?_
    cases e with
    | returned now =>
      have hpast := hl.past k' now he
      have hle : since ≤ now := by simpa [JobEvent.isSince] using hsaid
      omega
    | _ => cases hsaid
  rw [hnone, ite_self]

structure PassedOver (q : Queue ι π) (u : Queue ι π) (acts : List (QueueAction ι π)) (k : Nat) (since due : Int) : Prop where
  /-- Each job that was ahead, locked by a claim or in somebody's hands when the lease began goes past `k` once at most, and so
  does a job that was put in the queue to run as early. -/
  atMost : u.passed k since ≤ q.ahead k since due + q.oldClaims since + q.oldHands since + acts.countP (·.isEarly due)
  /-- A claim that does not take `k` makes full use of it. -/
  full : ∀ i limit picks p, u.step (.claim i limit picks) = some p → k ∈ u.candidates → u.runAfter k ≤ due → k ∉ picks →
    picks.length = batchSize limit ∧ ∀ k' ∈ picks, (u.table.committed k').any (Job.isAhead since due) = true

/-- No due job starves: in a run of any drainers, with crashes and late settles, a job that has become due is passed over, for as
long as a lease lasts, by no more hand-outs than there were jobs before it. -/
theorem passedOver_of_run {before acts : List (QueueAction ι π)} {u : Queue ι π} (hr : Run Queue.step Always initial before q)
    (hsince : q.clock < since) (hdue : due < since)
    (hrun : Run Queue.step (passesOver k since due) { q with clock := since } acts u) : PassedOver q u acts k since due := by
  have hl := locked_of_run hr
  obtain ⟨hw,hmass⟩ := Within.run (within_of_locked hl hsince) hdue hrun
  refine ⟨?_,fun i limit picks p hp hk hle hnot => ?_⟩
  · have hzero := passed_eq_zero (k := k) hl hsince
    have hahead : ({ q with clock := since } : Queue ι π).ahead k since due = q.ahead k since due := rfl
    have hclaims : ({ q with clock := since } : Queue ι π).oldClaims since = q.oldClaims since := rfl
    have hhands : ({ q with clock := since } : Queue ι π).oldHands since = q.oldHands since := rfl
    rw [mass_eq, mass_eq, hzero, hahead, hclaims, hhands] at hmass
    omega
  · cases turn_of_step hp with
    | claim _ htakes => exact hw.full i htakes hk hle hnot
    | settle hplace _ _ _ => cases hplace

private def twoWaiting : List (QueueAction Nat Unit) :=
  [.enqueue 7 ⟨"inbound.event", (), none, none⟩, .enqueue 7 ⟨"inbound.event", (), none, none⟩]

private def firstFails : List (QueueAction Nat Unit) :=
  [.claim 0 (.finite 1) [0], .commit 0, .fail 0 "timeout" 0, .tick 300010]

private instance (q : Queue Nat Unit) (a : QueueAction Nat Unit) : Decidable (passesOver 1 10 0 q a) := by
  cases a <;> unfold passesOver <;> infer_instance

theorem passedOver_of_firstFails : ∃ q u : Queue Nat Unit, Run Queue.step Always initial twoWaiting q ∧
    Run Queue.step (passesOver 1 10 0) { q with clock := 10 } firstFails u ∧ u.passed 1 10 = 1 ∧ q.ahead 1 10 0 = 1 ∧
    PassedOver q u firstFails 1 10 0 := by
  have hexec : (exec Queue.step Always initial twoWaiting).any fun q => q.clock = 0 ∧ q.ahead 1 10 0 = 1 ∧
      (exec Queue.step (passesOver 1 10 0) { q with clock := 10 } firstFails).any fun u => u.passed 1 10 = 1 := by
    decide +kernel
  obtain ⟨q,hbefore,hrest⟩ := exec_any hexec
  obtain ⟨hclock,hahead,hrest⟩ := of_decide_eq_true hrest
  obtain ⟨u,hafter,hpassed⟩ := exec_any hrest
  exact ⟨q,u,hbefore,hafter,of_decide_eq_true hpassed,hahead,passedOver_of_run hbefore (by rw [hclock]; decide) (by decide) hafter⟩

end Queue
end Nivara.Scheduler
