import Mathlib.Data.List.Nodup
import Nivara.Scheduler.Lifecycle

/-! Who holds which job. As long as every settle comes from the job's latest claim, each row is
what its trail made it, and a holder whose job was claimed again has outlived its lease. -/
namespace Nivara.Scheduler
open Transactions

variable {ι π : Type}

def QueueAction.place : QueueAction ι π → Option Nat
  | .complete n => some n
  | .fail n _ _ => some n
  | _ => none

/-- How a holder settles: the `SET` of its statement, and what becomes of the job. -/
inductive Settles (h : Hand ι π) : (Job π → Job π) → JobEvent → Prop
  | completed : Settles h Job.completed .completed
  | failed (message : String) (runAfter : Int) (hmore : (h.job.attempts : Int) < h.job.maxAttempts) :
      Settles h (Job.retried message runAfter) (.failed runAfter)
  | died (message : String) (hlast : h.job.maxAttempts ≤ h.job.attempts) :
      Settles h (Job.buried message) .died

/-- A settle of an active job carries its life on. -/
theorem Settles.life {h : Hand ι π} {f : Job π → Job π} {e : JobEvent} (hs : Settles h f e) {es : List JobEvent}
    {job : Job π} (hl : Life es job) (hactive : job.status = .active) : Life (es ++ [e]) (f job) := by
  cases hs with
  | completed => exact .completed hl hactive
  | failed message runAfter _ => exact .failed hl hactive
  | died message _ => exact .died hl hactive

namespace Queue

def settler (q : Queue ι π) (a : QueueAction ι π) : Option (Hand ι π) := a.place.bind fun n => q.hands[n]?

/-- The job has not been claimed again since its holder claimed it. -/
def settlesLatest (q : Queue ι π) (a : QueueAction ι π) : Prop :=
  ∀ h ∈ q.settler a, ∀ job ∈ q.table.committed h.job.id, job.attempts = h.job.attempts

instance (q : Queue ι π) (a : QueueAction ι π) : Decidable (q.settlesLatest a) :=
  inferInstanceAs (Decidable (∀ h ∈ q.settler a, ∀ job ∈ q.table.committed h.job.id, job.attempts = h.job.attempts))

variable [DecidableEq ι]

inductive Turn (q : Queue ι π) : QueueAction ι π → Queue ι π → Prop
  | tick {now} (hnow : q.clock ≤ now) : Turn q (.tick now) { q with clock := now }
  | enqueue (tenantId input) :
      Turn q (.enqueue tenantId input) { q with table := q.table.append (enqueued tenantId input q.clock) }
  | claim {i limit picks} (hidle : q.claiming i = none) (htakes : q.takes (batchSize limit) picks = true) :
      Turn q (.claim i limit picks) (q.leased i picks)
  | commit {i now picks} (hopen : q.claiming i = some (now, picks)) : Turn q (.commit i) (q.handedOut i now picks)
  | rollback (i) : Turn q (.rollback i) (q.rolledBack i)
  | settle {a n h f e} (hplace : a.place = some n) (hhand : q.hands[n]? = some h)
      (hfree : q.table.pending h.job.id = none) (hs : Settles h f e) : Turn q a (q.settled n h.job.id f e)
  | crash (i) : Turn q (.crash i) (q.crashed i)

omit [DecidableEq ι] in
private theorem settle_some {q q' : Queue ι π} {n k : Nat} {f : Job π → Job π} {e : JobEvent}
    (h : q.settle n k f e = some q') : q.table.pending k = none ∧ q' = q.settled n k f e := by
  simp only [settle] at h
  split at h
  · rename_i hfree
    exact ⟨by simpa using hfree,(Option.some.inj h).symm⟩
  · cases h

theorem turn_of_step {q q' : Queue ι π} {a : QueueAction ι π} (h : q.step a = some q') : q.Turn a q' := by
  cases a with
  | tick now =>
    simp only [step] at h
    split at h
    · cases h
      exact .tick (by assumption)
    · cases h
  | enqueue tenantId input =>
    cases h
    exact .enqueue tenantId input
  | claim i limit picks =>
    simp only [step] at h
    split at h
    · cases h
    · split at h
      · cases h
        exact .claim (by assumption) (by assumption)
      · cases h
  | commit i =>
    obtain ⟨⟨now,picks⟩,hopen,rfl⟩ := Option.map_eq_some_iff.mp h
    exact .commit hopen
  | rollback i =>
    obtain ⟨_,_,rfl⟩ := Option.map_eq_some_iff.mp h
    exact .rollback i
  | complete n =>
    obtain ⟨hand,hhand,hs⟩ := Option.bind_eq_some_iff.mp h
    obtain ⟨hfree,rfl⟩ := settle_some hs
    exact .settle rfl hhand hfree .completed
  | fail n message random =>
    obtain ⟨hand,hhand,hs⟩ := Option.bind_eq_some_iff.mp h
    split at hs
    · rename_i hlast
      obtain ⟨hfree,rfl⟩ := settle_some hs
      exact .settle rfl hhand hfree (.died message hlast)
    · rename_i hmore
      obtain ⟨runAfter,_,hs⟩ := Option.bind_eq_some_iff.mp hs
      obtain ⟨hfree,rfl⟩ := settle_some hs
      exact .settle rfl hhand hfree (.failed message _ (by omega))
  | crash i =>
    cases h
    exact .crash i

end Queue

structure Hand.Fits (clock : Int) (h : Hand ι π) (job : Job π) : Prop where
  attempts_le : h.job.attempts ≤ job.attempts
  maxAttempts_eq : h.job.maxAttempts = job.maxAttempts
  active : h.job.attempts = job.attempts → job.status = .active ∧ job.lockedAt = some h.now
  overdue : h.job.attempts < job.attempts → h.now + leaseMs < clock

namespace Hand.Fits

/-- A due row is leased once more; a holder it had outlived the lease. -/
theorem lease {clock now : Int} {h : Hand ι π} {job : Job π} (hf : h.Fits clock job)
    (hdue : job.isDue now = true) (hnow : now ≤ clock) : h.Fits clock (job.lease now) where
  attempts_le := Nat.le_succ_of_le hf.attempts_le
  maxAttempts_eq := hf.maxAttempts_eq
  active heq := by
    have := hf.attempts_le
    simp only [Job.lease] at heq
    omega
  overdue _ := by
    rcases Nat.lt_or_eq_of_le hf.attempts_le with hlt | heq
    · exact hf.overdue hlt
    · obtain ⟨hactive,hlock⟩ := hf.active heq
      rcases Job.isDue_iff.mp hdue with ⟨hready,_⟩ | ⟨_,at',hat,hlt⟩
      · rw [hactive] at hready
        cases hready
      · cases hlock.symm.trans hat
        omega

theorem claimed (i : ι) (clock now : Int) (k : Nat) (old : Job π) :
    (⟨i, (old.lease now).claimed k, now⟩ : Hand ι π).Fits clock (old.lease now) where
  attempts_le := Nat.le_refl _
  maxAttempts_eq := rfl
  active _ := ⟨rfl,rfl⟩
  overdue hlt := absurd hlt (Nat.lt_irrefl _)

end Hand.Fits

namespace Queue
variable [DecidableEq ι]

structure Orderly (q : Queue ι π) : Prop where
  life : ∀ k job, q.table.committed k = some job → Life (q.trail k) job
  unborn : ∀ k, q.table.committed k = none → q.trail k = []
  leased : ∀ i k v, q.table.own i k = some v → ∃ now picks, q.claiming i = some (now, picks) ∧ k ∈ picks ∧
    ∃ old, q.table.committed k = some old ∧ old.isDue now = true ∧ v = old.lease now
  batch : ∀ i now picks, q.claiming i = some (now, picks) →
    picks.Nodup ∧ now ≤ q.clock ∧ ∀ k ∈ picks, ∃ v, q.table.own i k = some v
  held : ∀ h ∈ q.hands, ∃ job, q.table.committed h.job.id = some job ∧ h.Fits q.clock job
  distinct : (q.hands.map fun h => (h.job.id, h.job.attempts)).Nodup

theorem orderly_initial : (initial : Queue ι π).Orderly where
  life k job h := by cases h
  unborn _ _ := rfl
  leased i k v h := by cases h
  batch i now picks h := by cases h
  held h hh := by cases hh
  distinct := List.nodup_nil

/-! What a claim's `SELECT` picks. -/
omit [DecidableEq ι] in
theorem mem_candidates {q : Queue ι π} {k : Nat} : k ∈ q.candidates ↔
    q.table.pending k = none ∧ ∃ job, q.table.committed k = some job ∧ job.isDue q.clock = true := by
  simp only [candidates, List.mem_filter, List.mem_range, decide_eq_true_eq, Option.isNone_iff_eq_none,
    Option.any_eq_true]
  constructor
  · rintro ⟨_,hfree,job,hjob,hdue⟩
    exact ⟨hfree,job,hjob,hdue⟩
  · rintro ⟨hfree,job,hjob,hdue⟩
    exact ⟨q.table.lt_size_of_committed k hjob,hfree,job,hjob,hdue⟩

omit [DecidableEq ι] in
theorem takes_iff {q : Queue ι π} {batch : Nat} {picks : List Nat} : q.takes batch picks = true ↔
    picks.Nodup ∧ (∀ k ∈ picks, k ∈ q.candidates) ∧ picks.length = min batch q.candidates.length ∧
      ∀ k ∈ picks, ∀ k' ∈ q.candidates, k' ∉ picks → q.runAfter k ≤ q.runAfter k' := by
  simp [takes]

theorem mem_batch {q : Queue ι π} {i : ι} {now : Int} {picks : List Nat} {h : Hand ι π} :
    h ∈ q.batch i now picks ↔ ∃ k ∈ picks, ∃ job, q.table.own i k = some job ∧ h = ⟨i, job.claimed k, now⟩ := by
  simp [batch, eq_comm]

namespace Orderly
variable {q : Queue ι π} {i : ι}

/-- What a holder of row `k` knows of it. -/
theorem fits (ho : q.Orderly) {h : Hand ι π} (hh : h ∈ q.hands) {k : Nat} (hid : h.job.id = k) {job : Job π}
    (hjob : q.table.committed k = some job) : h.Fits q.clock job := by
  subst hid
  obtain ⟨job',hjob',hfits⟩ := ho.held h hh
  cases hjob.symm.trans hjob'
  exact hfits

/-- A row written by a claim is one that its claim picked. -/
theorem own_none (ho : q.Orderly) {now : Int} {picks : List Nat} (hopen : q.claiming i = some (now, picks))
    {k : Nat} (hk : k ∉ picks) : q.table.own i k = none := by
  cases hown : q.table.own i k with
  | none => rfl
  | some v =>
    obtain ⟨now',picks',hopen',hk',_⟩ := ho.leased i k v hown
    cases hopen.symm.trans hopen'
    exact absurd hk' hk

theorem own_idle (ho : q.Orderly) (hidle : q.claiming i = none) (k : Nat) : q.table.own i k = none := by
  cases hown : q.table.own i k with
  | none => rfl
  | some v =>
    obtain ⟨_,_,hopen,_⟩ := ho.leased i k v hown
    rw [hidle] at hopen
    cases hopen

/-- The row of an open claim: what it was, and what the claim made of it. -/
theorem picked (ho : q.Orderly) {now : Int} {picks : List Nat} (hopen : q.claiming i = some (now, picks))
    {k : Nat} (hk : k ∈ picks) : ∃ old, q.table.committed k = some old ∧ old.isDue now = true ∧
      q.table.own i k = some (old.lease now) := by
  obtain ⟨v,hv⟩ := (ho.batch i now picks hopen).2.2 k hk
  obtain ⟨now',picks',hopen',_,old,hold,hdue,rfl⟩ := ho.leased i k v hv
  cases hopen.symm.trans hopen'
  exact ⟨old,hold,hdue,hv⟩

/-- Open claims have no row in common. -/
theorem disjoint (ho : q.Orderly) {j : ι} {now now' : Int} {picks picks' : List Nat} (hij : i ≠ j)
    (hi : q.claiming i = some (now, picks)) (hj : q.claiming j = some (now', picks')) : picks.Disjoint picks' := by
  intro k hk hk'
  obtain ⟨v,hv⟩ := (ho.batch i now picks hi).2.2 k hk
  obtain ⟨v',hv'⟩ := (ho.batch j now' picks' hj).2.2 k hk'
  rw [Table.own_exclusive _ _ _ _ hv hij.symm] at hv'
  cases hv'

/-- The committed row after the claim's commit. -/
theorem committed_handedOut (ho : q.Orderly) {now : Int} {picks : List Nat}
    (hopen : q.claiming i = some (now, picks)) (k : Nat) :
    (k ∈ picks ∧ ∃ old, q.table.committed k = some old ∧ old.isDue now = true ∧
      (q.handedOut i now picks).table.committed k = some (old.lease now)) ∨
    (k ∉ picks ∧ (q.handedOut i now picks).table.committed k = q.table.committed k) := by
  by_cases hk : k ∈ picks
  · obtain ⟨old,hold,hdue,hown⟩ := ho.picked hopen hk
    exact .inl ⟨hk,old,hold,hdue,q.table.visible_of_own i k hown⟩
  · exact .inr ⟨hk,q.table.visible_of_no_own i k (ho.own_none hopen hk)⟩

theorem tick (ho : q.Orderly) {now : Int} (hnow : q.clock ≤ now) : ({ q with clock := now } : Queue ι π).Orderly where
  life := ho.life
  unborn := ho.unborn
  leased := ho.leased
  batch j at' picks hj := by
    obtain ⟨hnodup,hat,hown⟩ := ho.batch j at' picks hj
    exact ⟨hnodup,Int.le_trans hat hnow,hown⟩
  held h hh := by
    obtain ⟨job,hjob,hfits⟩ := ho.held h hh
    exact ⟨job,hjob,{ hfits with overdue := fun hlt => Int.lt_of_lt_of_le (hfits.overdue hlt) hnow }⟩
  distinct := ho.distinct

theorem enqueue (ho : q.Orderly) (tenantId : Uuid) (input : EnqueueInput π) :
    ({ q with table := q.table.append (enqueued tenantId input q.clock) } : Queue ι π).Orderly where
  life k job hk := by
    rw [Table.append_committed] at hk
    split at hk
    · rename_i hsize
      cases hk
      rw [ho.unborn k (q.table.committed_fresh k (Nat.le_of_eq hsize.symm))]
      exact .queued rfl rfl rfl
    · exact ho.life k job hk
  unborn k hk := by
    rw [Table.append_committed] at hk
    split at hk
    · cases hk
    · exact ho.unborn k hk
  leased j k v hown := by
    obtain ⟨now,picks,hopen,hk,old,hold,hrest⟩ := ho.leased j k v hown
    exact ⟨now,picks,hopen,hk,old,Table.append_committed_of_committed _ _ hold,hrest⟩
  batch := ho.batch
  held h hh := by
    obtain ⟨job,hjob,hfits⟩ := ho.held h hh
    exact ⟨job,Table.append_committed_of_committed _ _ hjob,hfits⟩
  distinct := ho.distinct

theorem claim (ho : q.Orderly) {batch : Nat} {picks : List Nat} (hidle : q.claiming i = none)
    (htakes : q.takes batch picks = true) : (q.leased i picks).Orderly := by
  obtain ⟨hnodup,hcand,_⟩ := takes_iff.mp htakes
  have hfree : q.table.free i picks = true := by
    rw [Table.free_iff]
    intro k hk j r hp
    rw [(mem_candidates.mp (hcand k hk)).1] at hp
    cases hp
  refine ⟨ho.life,ho.unborn,?_,?_,ho.held,ho.distinct⟩
  · intro j k v hown
    by_cases hji : j = i
    · subst hji
      rcases Table.own_write_cases _ _ _ hown with ⟨old,hk,hvis,hdue,rfl⟩ | hold
      · rw [Table.visible_of_no_own _ _ _ (ho.own_idle hidle k)] at hvis
        exact ⟨q.clock,picks,by simp [Queue.leased],hk,old,hvis,hdue,rfl⟩
      · rw [ho.own_idle hidle k] at hold
        cases hold
    · simp only [Queue.leased, Function.update_of_ne hji] at hown ⊢
      rw [Table.own_write_other _ _ _ _ hji hfree] at hown
      exact ho.leased j k v hown
  · intro j now ps hj
    by_cases hji : j = i
    · subst hji
      simp only [Queue.leased, Function.update_self, Option.some.injEq, Prod.mk.injEq] at hj
      obtain ⟨rfl,rfl⟩ := hj
      refine ⟨hnodup,Int.le_refl _,fun k hk => ?_⟩
      obtain ⟨_,job,hjob,hdue⟩ := mem_candidates.mp (hcand k hk)
      have hvis : q.table.visible j k = some job := by
        rw [Table.visible_of_no_own _ _ _ (ho.own_idle hidle k), hjob]
      exact ⟨_,Table.own_write_picked _ _ _ hk hvis hdue⟩
    · simp only [Queue.leased, Function.update_of_ne hji] at hj ⊢
      obtain ⟨hnodup,hnow,hown⟩ := ho.batch j now ps hj
      refine ⟨hnodup,hnow,fun k hk => ?_⟩
      rw [Table.own_write_other _ _ _ _ hji hfree]
      exact hown k hk

/-- What is left of the open claims when the transaction of `i` ends without them losing a row. -/
private theorem drop (ho : q.Orderly) {table : Table ι (Job π)} (hself : ∀ k, table.own i k = none)
    (hother : ∀ j k, j ≠ i → table.own j k = q.table.own j k)
    (hkept : ∀ j k v, j ≠ i → q.table.own j k = some v → table.committed k = q.table.committed k) :
    (∀ j k v, table.own j k = some v → ∃ now picks, Function.update q.claiming i none j = some (now, picks) ∧
      k ∈ picks ∧ ∃ old, table.committed k = some old ∧ old.isDue now = true ∧ v = old.lease now) ∧
    ∀ j now picks, Function.update q.claiming i none j = some (now, picks) →
      picks.Nodup ∧ now ≤ q.clock ∧ ∀ k ∈ picks, ∃ v, table.own j k = some v := by
  constructor
  · intro j k v hown
    by_cases hji : j = i
    · subst hji
      rw [hself k] at hown
      cases hown
    · rw [hother j k hji] at hown
      rw [Function.update_of_ne hji, hkept j k v hji hown]
      exact ho.leased j k v hown
  · intro j now picks hj
    by_cases hji : j = i
    · subst hji
      simp at hj
    · rw [Function.update_of_ne hji] at hj
      obtain ⟨hnodup,hnow,hown⟩ := ho.batch j now picks hj
      refine ⟨hnodup,hnow,fun k hk => ?_⟩
      rw [hother j k hji]
      exact hown k hk

theorem rollback (ho : q.Orderly) (i : ι) : (q.rolledBack i).Orderly := by
  obtain ⟨hleased,hbatch⟩ := ho.drop (Table.own_rollback_self q.table i)
    (fun j k hji => Table.own_rollback_other _ _ _ _ hji) (fun j k v _ _ => rfl)
  exact ⟨ho.life,ho.unborn,hleased,hbatch,ho.held,ho.distinct⟩

theorem crash (ho : q.Orderly) (i : ι) : (q.crashed i).Orderly := by
  have hr := ho.rollback i
  refine ⟨hr.life,hr.unborn,hr.leased,hr.batch,?_,?_⟩
  · intro h hh
    exact hr.held h (List.mem_of_mem_filter hh)
  · exact ho.distinct.sublist (List.filter_sublist.map _)

theorem batch_ids (ho : q.Orderly) {now : Int} {picks : List Nat} (hopen : q.claiming i = some (now, picks)) :
    (q.batch i now picks).map (·.job.id) = picks := by
  have hown := (ho.batch i now picks hopen).2.2
  clear hopen
  induction picks with
  | nil => rfl
  | cons k picks ih =>
    obtain ⟨v,hv⟩ := hown k List.mem_cons_self
    have htail := ih fun k' hk' => hown k' (List.mem_cons_of_mem _ hk')
    simp only [Queue.batch, List.filterMap_cons, hv, Option.map_some, List.map_cons, Job.claimed,
      List.cons.injEq, true_and]
    exact htail

/-- A job that the claim hands out is its row, leased. -/
theorem of_mem_batch (ho : q.Orderly) {now : Int} {picks : List Nat} (hopen : q.claiming i = some (now, picks))
    {h : Hand ι π} (hh : h ∈ q.batch i now picks) : ∃ k ∈ picks, ∃ old : Job π,
      q.table.committed k = some old ∧ q.table.own i k = some (old.lease now) ∧
      h = ⟨i, (old.lease now).claimed k, now⟩ := by
  obtain ⟨k,hk,v,hv,rfl⟩ := mem_batch.mp hh
  obtain ⟨old,hold,_,hown⟩ := ho.picked hopen hk
  cases hown.symm.trans hv
  exact ⟨k,hk,old,hold,hown,rfl⟩

theorem commit (ho : q.Orderly) {now : Int} {picks : List Nat} (hopen : q.claiming i = some (now, picks)) :
    (q.handedOut i now picks).Orderly := by
  obtain ⟨hnodup,hnow,_⟩ := ho.batch i now picks hopen
  obtain ⟨hleased,hbatch⟩ := ho.drop (Table.own_commit_self q.table i)
    (fun j k hji => Table.own_commit_other _ _ _ _ hji)
    (fun j k v hji hown => Table.visible_of_no_own _ _ _ (Table.own_exclusive _ _ _ _ hown (Ne.symm hji)))
  refine ⟨?_,?_,hleased,hbatch,?_,?_⟩
  · intro k job hk
    rcases ho.committed_handedOut hopen k with ⟨hpick,old,hold,hdue,hnew⟩ | ⟨hpick,hsame⟩
    · cases hnew.symm.trans hk
      simp only [handedOut, if_pos hpick]
      exact (ho.life k old hold).returned hdue
    · simp only [handedOut, if_neg hpick]
      exact ho.life k job (hsame.symm.trans hk)
  · intro k hk
    rcases ho.committed_handedOut hopen k with ⟨_,_,_,_,hnew⟩ | ⟨hpick,hsame⟩
    · cases hnew.symm.trans hk
    · simp only [handedOut, if_neg hpick]
      exact ho.unborn k (hsame.symm.trans hk)
  · intro h hh
    rcases List.mem_append.mp hh with hh | hh
    · obtain ⟨job,hjob,hfits⟩ := ho.held h hh
      rcases ho.committed_handedOut hopen h.job.id with ⟨_,old,hold,hdue,hnew⟩ | ⟨_,hsame⟩
      · cases hjob.symm.trans hold
        exact ⟨_,hnew,hfits.lease hdue hnow⟩
      · exact ⟨job,hsame.trans hjob,hfits⟩
    · obtain ⟨k,_,old,_,hown,rfl⟩ := ho.of_mem_batch hopen hh
      exact ⟨_,Table.visible_of_own _ _ _ hown,Hand.Fits.claimed _ _ _ _ _⟩
  · -- an earlier holder of a picked job has a smaller attempt number
    simp only [handedOut, List.map_append]
    refine List.nodup_append.mpr ⟨ho.distinct,?_,?_⟩
    · have hids : ((q.batch i now picks).map (·.job.id)).Nodup := by
        rw [ho.batch_ids hopen]
        exact hnodup
      refine List.Nodup.of_map Prod.fst ?_
      rw [List.map_map]
      exact hids
    · rintro _ ha _ hb rfl
      obtain ⟨h,hh,rfl⟩ := List.mem_map.mp ha
      obtain ⟨h',hh',heq⟩ := List.mem_map.mp hb
      obtain ⟨k,_,old,hold,_,rfl⟩ := ho.of_mem_batch hopen hh'
      obtain ⟨hid,hatt⟩ := Prod.mk.inj heq
      have hle := (ho.fits hh hid.symm hold).attempts_le
      have hatt' : old.attempts + 1 = h.job.attempts := hatt
      omega

/-- No other holder has the same attempt of the job. -/
theorem attempts_ne (ho : q.Orderly) {n : Nat} {h h' : Hand ι π} (hh : q.hands[n]? = some h)
    (hh' : h' ∈ q.hands.eraseIdx n) (hid : h'.job.id = h.job.id) : h'.job.attempts ≠ h.job.attempts := by
  intro hatt
  obtain ⟨m,hne,hm⟩ := List.mem_eraseIdx_iff_getElem?.mp hh'
  have hlt : m < (q.hands.map fun h => (h.job.id, h.job.attempts)).length := by
    rw [List.length_map]
    exact (List.getElem?_eq_some_iff.mp hm).1
  exact hne ((List.getElem?_inj hlt ho.distinct).mp (by simp [hm, hh, hid, hatt]))

theorem settle (ho : q.Orderly) {n : Nat} {h : Hand ι π} {f : Job π → Job π} {e : JobEvent}
    (hh : q.hands[n]? = some h) (hfree : q.table.pending h.job.id = none) (hs : Settles h f e)
    (hlatest : ∀ job ∈ q.table.committed h.job.id, job.attempts = h.job.attempts) :
    (q.settled n h.job.id f e).Orderly := by
  obtain ⟨job,hjob,hfits⟩ := ho.held h (List.mem_of_getElem? hh)
  have hatt : h.job.attempts = job.attempts := (hlatest job hjob).symm
  have hself : (q.settled n h.job.id f e).table.committed h.job.id = some (f job) := by
    simp [settled, Table.amend_committed, hjob]
  have hother : ∀ k, k ≠ h.job.id → (q.settled n h.job.id f e).table.committed k = q.table.committed k := by
    intro k hk
    simp [settled, Table.amend_committed, hk]
  refine ⟨?_,?_,?_,ho.batch,?_,?_⟩
  · intro k job' hk
    by_cases hkid : k = h.job.id
    · subst hkid
      cases hself.symm.trans hk
      simp only [settled, Function.update_self]
      exact hs.life (ho.life _ job hjob) (hfits.active hatt).1
    · simp only [settled, Function.update_of_ne hkid]
      exact ho.life k job' ((hother k hkid).symm.trans hk)
  · intro k hk
    by_cases hkid : k = h.job.id
    · subst hkid
      cases hself.symm.trans hk
    · simp only [settled, Function.update_of_ne hkid]
      exact ho.unborn k ((hother k hkid).symm.trans hk)
  · intro j k v hown
    have hkid : k ≠ h.job.id := by
      rintro rfl
      have hp := (Table.own_eq_some_iff _ _ _).mp hown
      cases hfree.symm.trans hp
    rw [hother k hkid]
    exact ho.leased j k v hown
  · intro h' hh'
    by_cases hkid : h'.job.id = h.job.id
    · -- an earlier holder stays an earlier one
      have hne := ho.attempts_ne hh hh' hkid
      have hfits' := ho.fits (List.mem_of_mem_eraseIdx hh') hkid hjob
      rw [hkid]
      have hsame : (f job).attempts = job.attempts ∧ (f job).maxAttempts = job.maxAttempts := by
        cases hs <;> exact ⟨rfl,rfl⟩
      refine ⟨f job,hself,?_,?_,?_,?_⟩
      · rw [hsame.1]
        exact hfits'.attempts_le
      · rw [hsame.2]
        exact hfits'.maxAttempts_eq
      · intro heq
        rw [hsame.1, ← hatt] at heq
        exact absurd heq hne
      · rw [hsame.1]
        exact hfits'.overdue
    · obtain ⟨job',hjob',hfits'⟩ := ho.held h' (List.mem_of_mem_eraseIdx hh')
      exact ⟨job',(hother _ hkid).trans hjob',hfits'⟩
  · exact ho.distinct.sublist ((List.eraseIdx_sublist _ _).map _)

/-- One step, in any order of the drainers. -/
theorem step (ho : q.Orderly) {a : QueueAction ι π} {q' : Queue ι π} (hl : q.settlesLatest a)
    (h : q.step a = some q') : q'.Orderly := by
  cases turn_of_step h with
  | tick hnow => exact ho.tick hnow
  | enqueue tenantId input => exact ho.enqueue tenantId input
  | claim hidle htakes => exact ho.claim hidle htakes
  | commit hopen => exact ho.commit hopen
  | rollback i => exact ho.rollback i
  | settle hplace hhand hfree hs =>
    exact ho.settle hhand hfree hs (hl _ (by simp [settler, hplace, hhand]))
  | crash i => exact ho.crash i

end Orderly

theorem orderly_of_run {acts : List (QueueAction ι π)} {q : Queue ι π}
    (hr : Run step settlesLatest initial acts q) : q.Orderly :=
  hr.invariant orderly_initial fun _ _ _ ho hl hs => ho.step hl hs

end Queue
end Nivara.Scheduler
