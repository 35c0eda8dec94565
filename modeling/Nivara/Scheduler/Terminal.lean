import Nivara.Scheduler.Custody

/-! `done` and `dead` are terminal as long as no holder settles a job that was claimed again:
both settles find their row by id alone. -/
namespace Nivara.Scheduler
open Transactions

def JobStatus.isTerminal : JobStatus → Bool
  | .done => true
  | .dead => true
  | _ => false

namespace Queue
variable {ι π : Type} [DecidableEq ι]

private theorem isDue_terminal {job : Job π} (hterm : job.status.isTerminal = true) (now : Int) :
    job.isDue now = false := by
  rw [Bool.eq_false_iff]
  intro hdue
  rcases Job.isDue_iff.mp hdue with ⟨hready,_⟩ | ⟨hactive,_⟩
  · rw [hready] at hterm
    cases hterm
  · rw [hactive] at hterm
    cases hterm

/-- One step leaves a finished job alone, row and trail. -/
theorem terminal_step {q q' : Queue ι π} {a : QueueAction ι π} (ho : q.Orderly) (hl : q.settlesLatest a)
    (hs : q.step a = some q') {k : Nat} {job : Job π} (hjob : q.table.committed k = some job)
    (hterm : job.status.isTerminal = true) : q'.table.committed k = some job ∧ q'.trail k = q.trail k := by
  cases turn_of_step hs with
  | tick _ => exact ⟨hjob,rfl⟩
  | enqueue tenantId input => exact ⟨Table.append_committed_of_committed _ _ hjob,rfl⟩
  | claim _ _ => exact ⟨hjob,rfl⟩
  | commit hopen =>
    rcases ho.committed_handedOut hopen k with ⟨_,old,hold,hdue,_⟩ | ⟨hpick,hsame⟩
    · cases hjob.symm.trans hold
      rw [isDue_terminal hterm] at hdue
      cases hdue
    · exact ⟨hsame.trans hjob,by simp [handedOut, hpick]⟩
  | rollback _ => exact ⟨hjob,rfl⟩
  | @settle _ n h f e hplace hhand hfree hs =>
    -- the latest holder's job is still active
    have hk : k ≠ h.job.id := by
      rintro rfl
      have hfits := ho.fits (List.mem_of_getElem? hhand) rfl hjob
      have hatt := hl h (by simp [settler, hplace, hhand]) job hjob
      rw [(hfits.active hatt.symm).1] at hterm
      cases hterm
    simp [settled, Table.amend_committed, hk, hjob]
  | crash _ => exact ⟨hjob,rfl⟩

/-- A job that is done or dead stays as it is and is never handed out again, in every run whose
settles all come from the job's latest claim. -/
theorem terminal_of_settlesLatest {acts acts' : List (QueueAction ι π)} {q q' : Queue ι π}
    (hr : Run step settlesLatest initial acts q) (hr' : Run step settlesLatest q acts' q') {k : Nat} {job : Job π}
    (hjob : q.table.committed k = some job) (hterm : job.status.isTerminal = true) :
    q'.table.committed k = some job ∧ q'.trail k = q.trail k := by
  have hkept : q'.Orderly ∧ q'.table.committed k = some job ∧ q'.trail k = q.trail k := by
    refine hr'.invariant (I := fun p => p.Orderly ∧ p.table.committed k = some job ∧ p.trail k = q.trail k)
      ⟨orderly_of_run hr,hjob,rfl⟩ ?_
    rintro p a p' ⟨ho,hp,htrail⟩ hl hs
    obtain ⟨hp',htrail'⟩ := terminal_step ho hl hs hp hterm
    exact ⟨ho.step hl hs,hp',htrail'.trans htrail⟩
  exact hkept.2

def deliverNow : EnqueueInput Unit := ⟨"outbound.delivery", (), none, none⟩

def takenOver : List (QueueAction Nat Unit) :=
  [.enqueue 7 deliverNow, .claim 0 (.finite 20) [0], .commit 0, .tick 300001,
   .claim 1 (.finite 20) [0], .commit 1, .complete 1]

def settledFirst : List (QueueAction Nat Unit) :=
  [.crash 0, .enqueue 7 deliverNow, .tick 600002, .claim 0 (.finite 20) [1], .commit 0]

theorem terminal_of_takenOver : ∃ q q' : Queue Nat Unit,
    Run step settlesLatest initial takenOver q ∧
    Run step settlesLatest q settledFirst q' ∧
    (q.table.committed 0).map (·.status) = some .done ∧ q'.table.committed 0 = q.table.committed 0 ∧
    q'.trail 0 = q.trail 0 ∧ q'.trail 0 = [.returned 0, .returned 300001, .completed] := by
  have hexec : (exec step settlesLatest initial takenOver).any fun q =>
      (q.table.committed 0).any (·.status = .done) && (exec step settlesLatest q settledFirst).any
        (·.trail 0 = [.returned 0, .returned 300001, .completed]) := by decide +kernel
  obtain ⟨q,hq,hrest⟩ := exec_any hexec
  rw [Bool.and_eq_true] at hrest
  obtain ⟨job,hjob,hdone⟩ := (Option.any_eq_true _ _).mp hrest.1
  obtain ⟨q',hq',htrail⟩ := exec_any hrest.2
  have hterm : job.status.isTerminal = true := by
    rw [of_decide_eq_true hdone]
    rfl
  obtain ⟨hrow,hkept⟩ := terminal_of_settlesLatest hq hq' hjob hterm
  exact ⟨q,q',hq,hq',by simp [hjob, of_decide_eq_true hdone],hrow.trans hjob.symm,hkept,of_decide_eq_true htrail⟩

def settledLate : List (QueueAction Nat Unit) :=
  [.fail 0 "timeout" (1 / 2), .tick 305001, .claim 1 (.finite 20) [0], .commit 1]

/-- The finished job is ready again and handed out a third time. -/
theorem lateFail_revives_done : ∃ q q' : Queue Nat Unit,
    Run step Always initial takenOver q ∧
    Run step Always q settledLate q' ∧
    (q.table.committed 0).map (·.status) = some .done ∧ (q'.table.committed 0).map (·.status) = some .active ∧
    q'.trail 0 = [.returned 0, .returned 300001, .completed, .failed 5000, .returned 305001] := by
  have hexec : (exec step Always initial takenOver).any fun q =>
      (q.table.committed 0).map (·.status) = some .done && (exec step Always q settledLate).any fun q' =>
        (q'.table.committed 0).map (·.status) = some .active &&
        q'.trail 0 = [.returned 0, .returned 300001, .completed, .failed 5000, .returned 305001] := by decide +kernel
  obtain ⟨q,hq,hrest⟩ := exec_any hexec
  rw [Bool.and_eq_true] at hrest
  obtain ⟨q',hq',hlast⟩ := exec_any hrest.2
  rw [Bool.and_eq_true] at hlast
  exact ⟨q,q',hq,hq',of_decide_eq_true hrest.1,of_decide_eq_true hlast.1,of_decide_eq_true hlast.2⟩

end Queue
end Nivara.Scheduler
