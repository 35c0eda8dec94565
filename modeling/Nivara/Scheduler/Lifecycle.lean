import Mathlib.Data.List.Induction
import Nivara.Scheduler.JobQueue

/-! The life of one job as the queue intends it: handed out while due, settled while active,
over once done or dead. -/
namespace Nivara.Scheduler

variable {π : Type}

/-- The jobs that such a life can have led to, with what happened to them. -/
inductive Life : List JobEvent → Job π → Prop
  | queued {job} (hready : job.status = .ready) (hlock : job.lockedAt = none) (hattempts : job.attempts = 0) :
      Life [] job
  | returned {es job now} (h : Life es job) (hdue : job.isDue now = true) :
      Life (es ++ [.returned now]) (job.lease now)
  | completed {es job} (h : Life es job) (hactive : job.status = .active) :
      Life (es ++ [.completed]) job.completed
  | failed {es job message runAfter} (h : Life es job) (hactive : job.status = .active) :
      Life (es ++ [.failed runAfter]) (job.retried message runAfter)
  | died {es job message} (h : Life es job) (hactive : job.status = .active) :
      Life (es ++ [.died]) (job.buried message)

theorem Job.isDue_iff {now : Int} {job : Job π} : job.isDue now = true ↔
    (job.status = .ready ∧ job.runAfter ≤ now) ∨
      (job.status = .active ∧ ∃ at', job.lockedAt = some at' ∧ at' < now - leaseMs) := by
  simp [Job.isDue, Option.any_eq_true]

namespace Life

/-- The lease is set exactly while the job is active. -/
theorem locked {es : List JobEvent} {job : Job π} (h : Life es job) :
    job.lockedAt ≠ none ↔ job.status = .active := by
  cases h with
  | queued hready hlock _ => simp [hready, hlock]
  | returned _ _ => simp [Job.lease]
  | completed _ _ => simp [Job.completed]
  | failed _ _ => simp [Job.retried]
  | died _ _ => simp [Job.buried]

theorem attempts {es : List JobEvent} {job : Job π} (h : Life es job) :
    job.attempts = es.countP JobEvent.isReturned := by
  induction h with
  | queued _ _ hattempts => simpa using hattempts
  | returned _ _ ih => simp [Job.lease, JobEvent.isReturned, ih]
  | completed _ _ ih => simpa [Job.completed, JobEvent.isReturned] using ih
  | failed _ _ ih => simpa [Job.retried, JobEvent.isReturned] using ih
  | died _ _ ih => simpa [Job.buried, JobEvent.isReturned] using ih

/-- An active job was handed out last, at the instant of its lease. -/
theorem last_of_active {es : List JobEvent} {job : Job π} (h : Life es job) (ha : job.status = .active) :
    ∃ l now, es = l ++ [.returned now] ∧ job.lockedAt = some now := by
  cases h with
  | queued hready _ _ => simp [hready] at ha
  | returned _ _ => exact ⟨_,_,rfl,rfl⟩
  | completed _ _ => simp [Job.completed] at ha
  | failed _ _ => simp [Job.retried] at ha
  | died _ _ => simp [Job.buried] at ha

/-- A ready job is new, or failed last, and waits for the instant that failure set. -/
theorem last_of_ready {es : List JobEvent} {job : Job π} (h : Life es job) (ha : job.status = .ready) :
    es = [] ∨ ∃ l, es = l ++ [.failed job.runAfter] := by
  cases h with
  | queued _ _ _ => exact .inl rfl
  | returned _ _ => simp [Job.lease] at ha
  | completed _ _ => simp [Job.completed] at ha
  | failed _ _ => exact .inr ⟨_,rfl⟩
  | died _ _ => simp [Job.buried] at ha

/-- A job is done because an attempt was completed. -/
theorem last_of_done {es : List JobEvent} {job : Job π} (h : Life es job) (hd : job.status = .done) :
    ∃ l, es = l ++ [.completed] := by
  cases h with
  | queued hready _ _ => simp [hready] at hd
  | returned _ _ => simp [Job.lease] at hd
  | completed _ _ => exact ⟨_,rfl⟩
  | failed _ _ => simp [Job.retried] at hd
  | died _ _ => simp [Job.buried] at hd

theorem snoc_inv {es : List JobEvent} {e : JobEvent} {job : Job π} (h : Life (es ++ [e]) job) :
    ∃ old : Job π, Life es old ∧ ∀ now, e = .returned now → old.isDue now = true := by
  generalize hl : es ++ [e] = l at h
  cases h with
  | queued _ _ _ => simp at hl
  | returned h hdue =>
    obtain ⟨rfl,he⟩ := List.append_inj' hl rfl
    cases he
    exact ⟨_,h,fun now hn => by cases hn; exact hdue⟩
  | completed h _ =>
    obtain ⟨rfl,he⟩ := List.append_inj' hl rfl
    cases he
    exact ⟨_,h,fun now hn => by cases hn⟩
  | failed h _ =>
    obtain ⟨rfl,he⟩ := List.append_inj' hl rfl
    cases he
    exact ⟨_,h,fun now hn => by cases hn⟩
  | died h _ =>
    obtain ⟨rfl,he⟩ := List.append_inj' hl rfl
    cases he
    exact ⟨_,h,fun now hn => by cases hn⟩

/-- The job as it was when it was handed out. -/
theorem before {es es' : List JobEvent} {now : Int} {job : Job π} (h : Life (es ++ JobEvent.returned now :: es') job) :
    ∃ old : Job π, Life es old ∧ old.isDue now = true := by
  induction es' using List.reverseRecOn generalizing job with
  | nil =>
    obtain ⟨old,ho,hdue⟩ := h.snoc_inv
    exact ⟨old,ho,hdue now rfl⟩
  | append_singleton es' e ih =>
    rw [← List.cons_append, ← List.append_assoc] at h
    obtain ⟨old,ho,_⟩ := h.snoc_inv
    exact ih ho

/-- Two consecutive hand-outs: between them the job failed and its instant came, or the lease
of the first ran out. -/
theorem spaced {l₁ l₂ l₃ : List JobEvent} {now₁ now₂ : Int} {job : Job π}
    (h : Life (l₁ ++ JobEvent.returned now₁ :: l₂ ++ JobEvent.returned now₂ :: l₃) job)
    (hnext : ∀ e ∈ l₂, e.isReturned = false) :
    (∃ runAfter, .failed runAfter ∈ l₂ ∧ runAfter ≤ now₂) ∨ now₁ + leaseMs < now₂ := by
  obtain ⟨old,ho,hdue⟩ := h.before
  rcases Job.isDue_iff.mp hdue with ⟨hready,hrun⟩ | ⟨hactive,at',hat,hlease⟩
  · -- the job had been handed out, so it is ready because it failed
    rcases ho.last_of_ready hready with hnil | ⟨l,hl⟩
    · simp at hnil
    · rcases List.eq_nil_or_concat l₂ with rfl | ⟨m,e,rfl⟩
      · simpa using (List.append_inj' hl rfl).2
      · rw [List.concat_eq_append, ← List.cons_append, ← List.append_assoc] at hl
        cases (List.append_inj' hl rfl).2
        exact .inl ⟨_,by simp,hrun⟩
  · obtain ⟨l,now,hl,hlock⟩ := ho.last_of_active hactive
    cases hat.symm.trans hlock
    rcases List.eq_nil_or_concat l₂ with rfl | ⟨m,e,rfl⟩
    · cases (List.append_inj' hl rfl).2
      exact .inr (by omega)
    · rw [List.concat_eq_append, ← List.cons_append, ← List.append_assoc] at hl
      cases (List.append_inj' hl rfl).2
      exact absurd (hnext (.returned at') (by simp)) (by simp [JobEvent.isReturned])

end Life
end Nivara.Scheduler
