import Nivara.Scheduler.Custody

/-! How often a job is handed out. The claim counts attempts and never compares them with
`max_attempts`; only the holder of the last attempt does, when it fails. So the bound stands
and falls with that holder. -/
namespace Nivara.Scheduler
open Transactions

variable {ι π : Type}

def Hand.isLast (h : Hand ι π) : Bool := h.job.maxAttempts ≤ h.job.attempts

namespace Queue
variable [DecidableEq ι]

/-- The holder of a last attempt neither dies nor lets its lease run out before a claim, and no
limit is negative. -/
def keepsLast (q : Queue ι π) : QueueAction ι π → Bool
  | .enqueue _ input => input.maxAttempts.all (0 ≤ ·)
  | .claim _ _ _ => q.hands.all fun h => h.isLast → q.clock ≤ h.now + leaseMs
  | .crash i => q.hands.all fun h => h.isLast → h.drainer ≠ i
  | _ => true

def settlesLast (q : Queue ι π) (a : QueueAction ι π) : Prop := q.settlesLatest a ∧ q.keepsLast a = true

instance (q : Queue ι π) (a : QueueAction ι π) : Decidable (q.settlesLast a) :=
  inferInstanceAs (Decidable (q.settlesLatest a ∧ q.keepsLast a = true))

/-- Every job is handed out at most `max_attempts` times. After that it is dead, unless its
last holder has yet to settle it or one of its attempts was completed. -/
def Exhausts (q : Queue ι π) : Prop :=
  ∀ k job, q.table.committed k = some job →
    ((q.trail k).countP JobEvent.isReturned : Int) ≤ job.maxAttempts ∧
    (((q.trail k).countP JobEvent.isReturned : Int) = job.maxAttempts → job.status = .dead ∨
      (∃ h ∈ q.hands, h.job.id = k ∧ h.isLast = true) ∨ job.status = .done ∧ .completed ∈ q.trail k)

/-- A job with no attempts left waits for its last holder or is finished. -/
structure Spent (q : Queue ι π) : Prop where
  orderly : q.Orderly
  within : ∀ k job, q.table.committed k = some job → (job.attempts : Int) ≤ job.maxAttempts
  exhausted : ∀ k job, q.table.committed k = some job → job.maxAttempts ≤ job.attempts →
    job.status ≠ .ready ∧ (job.status = .active → ∃ h ∈ q.hands, h.job.id = k ∧ h.job.attempts = job.attempts)
  picked : ∀ i k job, (q.table.own i k).isSome → q.table.committed k = some job →
    (job.attempts : Int) < job.maxAttempts

theorem spent_initial : (initial : Queue ι π).Spent where
  orderly := orderly_initial
  within k job h := by cases h
  exhausted k job h := by cases h
  picked i k job h := by cases h

namespace Spent
variable {q : Queue ι π}

private theorem lt_of_due (hq : q.Spent) (hlast : ∀ h ∈ q.hands, h.isLast = true → q.clock ≤ h.now + leaseMs)
    {k : Nat} {job : Job π} (hjob : q.table.committed k = some job) (hdue : job.isDue q.clock = true) :
    (job.attempts : Int) < job.maxAttempts := by
  by_contra hge
  obtain ⟨hnready,hactive⟩ := hq.exhausted k job hjob (by omega)
  rcases Job.isDue_iff.mp hdue with ⟨hready,_⟩ | ⟨ha,at',hat,hlt⟩
  · exact hnready hready
  · -- the expired lease is that of the last holder, who is still in time
    obtain ⟨h,hh,hid,hatt⟩ := hactive ha
    have hfits := hq.orderly.fits hh hid hjob
    cases hat.symm.trans (hfits.active hatt).2
    have hm := hfits.maxAttempts_eq
    have := hlast h hh (by simp [Hand.isLast, hm, hatt]; omega)
    omega

private theorem enqueue (hq : q.Spent) (tenantId : Uuid) (input : EnqueueInput π)
    (hmax : ∀ m ∈ input.maxAttempts, 0 ≤ m) :
    ({ q with table := q.table.append (enqueued tenantId input q.clock) } : Queue ι π).Spent := by
  have hpos : 0 < (enqueued tenantId input q.clock).maxAttempts := by
    simp only [enqueued]
    cases hm : input.maxAttempts with
    | none => simp
    | some m =>
      have := hmax m hm
      by_cases h0 : m = 0
      · subst h0
        decide
      · simp [Option.filter, h0]
        omega
  refine ⟨hq.orderly.enqueue tenantId input,?_,?_,?_⟩
  · intro k job hk
    rw [Table.append_committed] at hk
    split at hk
    · cases hk
      exact Int.le_of_lt hpos
    · exact hq.within k job hk
  · intro k job hk hge
    rw [Table.append_committed] at hk
    split at hk
    · cases hk
      exact absurd hge (by simp only [enqueued] at hpos ⊢; omega)
    · exact hq.exhausted k job hk hge
  · intro i k job hown hk
    rw [Table.append_committed] at hk
    split at hk
    · rename_i hsize
      have := q.table.pending_fresh k (Nat.le_of_eq hsize.symm)
      simp [Table.own, this] at hown
    · exact hq.picked i k job hown hk

private theorem claim (hq : q.Spent) {i : ι} {batch : Nat} {picks : List Nat} (hidle : q.claiming i = none)
    (htakes : q.takes batch picks = true) (hlast : ∀ h ∈ q.hands, h.isLast = true → q.clock ≤ h.now + leaseMs) :
    (q.leased i picks).Spent := by
  have ho := hq.orderly.claim hidle htakes
  refine ⟨ho,hq.within,hq.exhausted,fun j k job hown hjob => ?_⟩
  obtain ⟨v,hv⟩ := Option.isSome_iff_exists.mp hown
  obtain ⟨now,ps,hopen,hk,old,hold,hdue,_⟩ := ho.leased j k v hv
  cases hjob.symm.trans hold
  by_cases hji : j = i
  · subst hji
    simp only [Queue.leased, Function.update_self, Option.some.injEq, Prod.mk.injEq] at hopen
    obtain ⟨rfl,rfl⟩ := hopen
    exact hq.lt_of_due hlast hjob hdue
  · simp only [Queue.leased, Function.update_of_ne hji] at hopen
    obtain ⟨v',hv'⟩ := (hq.orderly.batch j now ps hopen).2.2 k hk
    exact hq.picked j k _ (by rw [hv']; rfl) hjob

private theorem commit (hq : q.Spent) {i : ι} {now : Int} {picks : List Nat}
    (hopen : q.claiming i = some (now, picks)) : (q.handedOut i now picks).Spent := by
  have ho := hq.orderly
  refine ⟨ho.commit hopen,?_,?_,?_⟩
  · intro k job hk
    rcases ho.committed_handedOut hopen k with ⟨hpick,old,hold,_,hnew⟩ | ⟨_,hsame⟩
    · cases hnew.symm.trans hk
      obtain ⟨v,hv⟩ := (ho.batch i now picks hopen).2.2 k hpick
      have := hq.picked i k old (by rw [hv]; rfl) hold
      simp only [Job.lease]
      omega
    · exact hq.within k job (hsame.symm.trans hk)
  · intro k job hk hge
    rcases ho.committed_handedOut hopen k with ⟨hpick,old,hold,_,hnew⟩ | ⟨_,hsame⟩
    · cases hnew.symm.trans hk
      refine ⟨by simp [Job.lease],fun _ => ?_⟩
      obtain ⟨old',hold',_,hown⟩ := ho.picked hopen hpick
      cases hold.symm.trans hold'
      exact ⟨_,List.mem_append_right _ (mem_batch.mpr ⟨k,hpick,_,hown,rfl⟩),rfl,rfl⟩
    · obtain ⟨hready,hactive⟩ := hq.exhausted k job (hsame.symm.trans hk) hge
      refine ⟨hready,fun ha => ?_⟩
      obtain ⟨h,hh,hrest⟩ := hactive ha
      exact ⟨h,List.mem_append_left _ hh,hrest⟩
  · intro j k job hown hk
    have hji : j ≠ i := by
      rintro rfl
      simp [handedOut] at hown
    have hown' : (q.table.own j k).isSome := by
      rw [← Table.own_commit_other q.table i j k hji]
      exact hown
    rcases ho.committed_handedOut hopen k with ⟨hpick,_⟩ | ⟨_,hsame⟩
    · -- two claims never lock one row
      obtain ⟨v,hv⟩ := (ho.batch i now picks hopen).2.2 k hpick
      rw [Table.own_exclusive _ _ _ _ hv hji] at hown'
      cases hown'
    · exact hq.picked j k job hown' (hsame.symm.trans hk)

private theorem rollback (hq : q.Spent) (i : ι) : (q.rolledBack i).Spent := by
  refine ⟨hq.orderly.rollback i,hq.within,hq.exhausted,fun j k job hown hk => ?_⟩
  by_cases hji : j = i
  · subst hji
    simp [rolledBack] at hown
  · refine hq.picked j k job ?_ hk
    rw [← Table.own_rollback_other q.table i j k hji]
    exact hown

private theorem crash (hq : q.Spent) (i : ι) (hlast : ∀ h ∈ q.hands, h.isLast = true → h.drainer ≠ i) :
    (q.crashed i).Spent := by
  refine ⟨hq.orderly.crash i,hq.within,fun k job hk hge => ?_,(hq.rollback i).picked⟩
  obtain ⟨hready,hactive⟩ := hq.exhausted k job hk hge
  refine ⟨hready,fun ha => ?_⟩
  obtain ⟨h,hh,hid,hatt⟩ := hactive ha
  have hm := (hq.orderly.fits hh hid hk).maxAttempts_eq
  have hne := hlast h hh (by simp [Hand.isLast, hm, hatt, hge])
  exact ⟨h,List.mem_filter.mpr ⟨hh,by simpa using hne⟩,hid,hatt⟩

private theorem settle (hq : q.Spent) {n : Nat} {h : Hand ι π} {f : Job π → Job π} {e : JobEvent}
    (hh : q.hands[n]? = some h) (hfree : q.table.pending h.job.id = none) (hs : Settles h f e)
    (hlatest : ∀ job ∈ q.table.committed h.job.id, job.attempts = h.job.attempts) :
    (q.settled n h.job.id f e).Spent := by
  obtain ⟨old,hold,hfits⟩ := hq.orderly.held h (List.mem_of_getElem? hh)
  have hatt := hlatest old hold
  have hm := hfits.maxAttempts_eq
  have hwithin := hq.within _ old hold
  refine ⟨hq.orderly.settle hh hfree hs hlatest,?_,?_,?_⟩
  · intro k job hk
    simp only [settled, Table.amend_committed] at hk
    split at hk
    · rw [hold] at hk
      cases hk
      cases hs <;> exact hwithin
    · exact hq.within k job hk
  · intro k job hk hge
    simp only [settled, Table.amend_committed] at hk
    split at hk
    · rw [hold] at hk
      cases hk
      -- only an attempt that was not the last makes the job ready again
      cases hs with
      | completed => exact ⟨by rintro ⟨⟩,by rintro ⟨⟩⟩
      | failed message runAfter hmore =>
        simp only [Job.retried] at hge
        omega
      | died message _ => exact ⟨by rintro ⟨⟩,by rintro ⟨⟩⟩
    · rename_i hkid
      obtain ⟨hready,hactive⟩ := hq.exhausted k job hk hge
      refine ⟨hready,fun ha => ?_⟩
      obtain ⟨h',hh',hid,hrest⟩ := hactive ha
      refine ⟨h',?_,hid,hrest⟩
      obtain ⟨m,hm'⟩ := List.mem_iff_getElem?.mp hh'
      refine List.mem_eraseIdx_iff_getElem?.mpr ⟨m,?_,hm'⟩
      rintro rfl
      cases hh.symm.trans hm'
      exact hkid hid.symm
  · intro j k job hown hk
    simp only [settled, Table.amend_committed] at hk
    split at hk
    · rename_i hkid
      subst hkid
      simp [settled, Table.own, hfree] at hown
    · exact hq.picked j k job hown hk

theorem step (hq : q.Spent) {a : QueueAction ι π} {q' : Queue ι π} (hl : q.settlesLast a)
    (h : q.step a = some q') : q'.Spent := by
  obtain ⟨hlatest,hl⟩ := hl
  cases turn_of_step h with
  | tick hnow => exact ⟨hq.orderly.tick hnow,hq.within,hq.exhausted,hq.picked⟩
  | enqueue tenantId input => exact hq.enqueue tenantId input (by simpa [keepsLast, Option.all_eq_true] using hl)
  | claim hidle htakes =>
    exact hq.claim hidle htakes fun h hh hlast => by simpa [hlast] using List.all_eq_true.mp hl h hh
  | commit hopen => exact hq.commit hopen
  | rollback i => exact hq.rollback i
  | settle hplace hhand hfree hs =>
    exact hq.settle hhand hfree hs (hlatest _ (by simp [settler, hplace, hhand]))
  | crash i => exact hq.crash i fun h hh hlast => by simpa [hlast] using List.all_eq_true.mp hl h hh

theorem exhausts (hq : q.Spent) : q.Exhausts := by
  intro k job hjob
  have hlife := hq.orderly.life k job hjob
  rw [← hlife.attempts]
  refine ⟨hq.within k job hjob,fun heq => ?_⟩
  obtain ⟨hready,hactive⟩ := hq.exhausted k job hjob (by omega)
  cases hs : job.status with
  | ready => exact absurd hs hready
  | active =>
    obtain ⟨h,hh,hid,hatt⟩ := hactive hs
    have hm := (hq.orderly.fits hh hid hjob).maxAttempts_eq
    exact .inr (.inl ⟨h,hh,hid,by simp [Hand.isLast, hm, hatt, heq]⟩)
  | done =>
    obtain ⟨l,hl⟩ := hlife.last_of_done hs
    exact .inr (.inr ⟨rfl,by simp [hl]⟩)
  | dead => exact .inl rfl

end Spent

/-- Every job is handed out at most `max_attempts` times and then dies, in every run in which
the last holder of a job settles it in time. -/
theorem exhausts_of_settlesLast {acts : List (QueueAction ι π)} {q : Queue ι π}
    (hr : Run Queue.step settlesLast initial acts q) : q.Exhausts :=
  (hr.invariant spent_initial fun _ _ _ hq hl hs => hq.step hl hs).exhausts

def triedTwice : EnqueueInput Unit := ⟨"outbound.delivery", (), none, some 2⟩

def killedOnce : List (QueueAction Nat Unit) :=
  [.enqueue 7 triedTwice, .claim 0 (.finite 20) [0], .commit 0, .crash 0, .tick 300001,
   .claim 1 (.finite 20) [0], .commit 1, .fail 0 "timeout" (1 / 2)]

theorem exhausts_of_killedOnce : ∃ q : Queue Nat Unit, Run Queue.step settlesLast initial killedOnce q ∧
    q.Exhausts ∧ (q.table.committed 0).map (·.status) = some .dead ∧
    q.trail 0 = [.returned 0, .returned 300001, .died] := by
  have hexec : (exec Queue.step settlesLast initial killedOnce).any fun q =>
      (q.table.committed 0).map (·.status) = some .dead ∧ q.trail 0 = [.returned 0, .returned 300001, .died] := by
    decide +kernel
  obtain ⟨q,hq,hend⟩ := exec_any hexec
  exact ⟨q,hq,exhausts_of_settlesLast hq,of_decide_eq_true hend⟩

def killedAlways : List (QueueAction Nat Unit) :=
  .enqueue 7 triedTwice :: (List.range 3).flatMap fun n =>
    [.claim n (.finite 20) [0], .commit n, .crash n, .tick (300001 * (n + 1))]

/-- The job has been handed out once more than `max_attempts` allows, and is still not dead. -/
theorem killedAlways_never_dies : ∃ q : Queue Nat Unit, Run Queue.step Always initial killedAlways q ∧
    ¬ q.Exhausts ∧ q.trail 0 = [.returned 0, .returned 300001, .returned 600002] ∧
    (q.table.committed 0).map (fun job => (job.status, job.attempts, job.maxAttempts)) = some (.active, 3, 2) := by
  have hexec : (exec Queue.step Always initial killedAlways).any fun q =>
      q.trail 0 = [.returned 0, .returned 300001, .returned 600002] ∧
      (q.table.committed 0).map (fun job => (job.status, job.attempts, job.maxAttempts)) = some (.active, 3, 2) := by
    decide +kernel
  obtain ⟨q,hq,hend⟩ := exec_any hexec
  obtain ⟨htrail,hrow⟩ := of_decide_eq_true hend
  refine ⟨q,hq,fun hex => ?_,htrail,hrow⟩
  obtain ⟨job,hjob,hvals⟩ := Option.map_eq_some_iff.mp hrow
  obtain ⟨hle,_⟩ := hex 0 job hjob
  have hcount : (q.trail 0).countP JobEvent.isReturned = 3 := by
    rw [htrail]
    decide
  have hmax : job.maxAttempts = 2 := congrArg (·.2.2) hvals
  rw [hcount, hmax] at hle
  exact absurd hle (by decide)

end Queue
end Nivara.Scheduler
