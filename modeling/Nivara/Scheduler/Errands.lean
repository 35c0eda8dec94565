import Nivara.Scheduler.LeaseExclusion
import Nivara.Scheduler.Terminal

/-! Who does what. A job keeps its errand whoever claims it, settles it or drops it, and each tick
works on the first job it holds. Nothing is asked of the ticks here: they may settle late or die. -/
namespace Nivara.Scheduler
open Transactions

variable {ι π : Type}

def Job.errand (job : Job π) : Uuid × String × π := (job.tenantId, job.kind, job.payload)

def ClaimedJob.errand (job : ClaimedJob π) : Uuid × String × π := (job.tenantId, job.kind, job.payload)

theorem Settles.errand {h : Hand ι π} {f : Job π → Job π} {e : JobEvent} (hs : Settles h f e) (job : Job π) :
    (f job).errand = job.errand := by
  cases hs <;> rfl

namespace Queue
variable [DecidableEq ι]

/-- All that is written and held of a job has one errand. An open claim has made it active. -/
structure Kept (q : Queue ι π) : Prop where
  written : ∀ i k job, q.table.own i k = some job →
    job.status = .active ∧ ∃ old, q.table.committed k = some old ∧ job.errand = old.errand
  held : ∀ h ∈ q.hands, ∃ job, q.table.committed h.job.id = some job ∧ job.errand = h.job.errand

theorem kept_initial : (initial : Queue ι π).Kept := ⟨fun _ _ _ h => (by cases h),fun _ h => (by cases h)⟩

namespace Kept
variable {q q' : Queue ι π} {a : QueueAction ι π}

private theorem visible (h : q.Kept) {i : ι} {k : Nat} {job : Job π} (hv : q.table.visible i k = some job) :
    ∃ old, q.table.committed k = some old ∧ job.errand = old.errand := by
  rcases Table.visible_cases _ _ _ hv with ho | ⟨_,hc⟩
  · exact (h.written i k job ho).2
  · exact ⟨job,hc,rfl⟩

/-- A row of the table after a step that settles nothing: the step makes it neither `done` nor `dead`. -/
theorem row_of_turn (h : q.Kept) (ht : q.Turn a q') (hplace : a.place = none) {k : Nat} {job' : Job π}
    (hjob' : q'.table.committed k = some job') :
    (∃ job, q.table.committed k = some job ∧ job'.errand = job.errand ∧ (job'.status.isTerminal = true → job' = job)) ∨
    ∃ tenantId input, a = .enqueue tenantId input ∧ job' = enqueued tenantId input q.clock := by
  cases ht with
  | enqueue tenantId input =>
    rw [Table.append_committed] at hjob'
    split at hjob'
    · cases hjob'
      exact .inr ⟨tenantId,input,rfl,rfl⟩
    · exact .inl ⟨job',hjob',rfl,fun _ => rfl⟩
  | @commit i now picks _ =>
    left
    rcases Table.visible_cases _ _ _ (show q.table.visible i k = some job' from hjob') with ho | ⟨_,hc⟩
    · obtain ⟨hactive,old,hold,herr⟩ := h.written i k job' ho
      refine ⟨old,hold,herr,fun hterm => ?_⟩
      rw [hactive] at hterm
      cases hterm
    · exact ⟨job',hc,rfl,fun _ => rfl⟩
  | settle hplace' _ _ _ =>
    rw [hplace] at hplace'
    cases hplace'
  | _ => exact .inl ⟨job',hjob',rfl,fun _ => rfl⟩

/-- No row is lost, and none changes its errand. -/
theorem keeps_row (h : q.Kept) (ht : q.Turn a q') {k : Nat} {job : Job π} (hjob : q.table.committed k = some job) :
    ∃ job', q'.table.committed k = some job' ∧ job'.errand = job.errand := by
  cases ht with
  | tick _ => exact ⟨job,hjob,rfl⟩
  | enqueue tenantId input => exact ⟨job,Table.append_committed_of_committed _ _ hjob,rfl⟩
  | claim _ _ => exact ⟨job,hjob,rfl⟩
  | @commit i now picks _ =>
    cases ho : q.table.own i k with
    | none => exact ⟨job,(Table.visible_of_no_own _ _ _ ho).trans hjob,rfl⟩
    | some job' =>
      obtain ⟨_,old,hold,herr⟩ := h.written i k job' ho
      cases hjob.symm.trans hold
      exact ⟨job',Table.visible_of_own _ _ _ ho,herr⟩
  | rollback _ => exact ⟨job,hjob,rfl⟩
  | @settle _ n hand f e _ _ _ hs =>
    by_cases hk : k = hand.job.id
    · subst hk
      exact ⟨f job,by simp [settled, Table.amend_committed, hjob],hs.errand job⟩
    · exact ⟨job,by simp [settled, Table.amend_committed, hk, hjob],rfl⟩
  | crash _ => exact ⟨job,hjob,rfl⟩

/-- What a transaction has of a row after a step it had before, or leases it now. -/
private theorem written_of_turn (h : q.Kept) (ht : q.Turn a q') {i : ι} {k : Nat} {job : Job π} (ho : q'.table.own i k = some job) :
    job.status = .active ∧ ∃ old, q.table.committed k = some old ∧ job.errand = old.errand := by
  cases ht with
  | @claim j limit picks _ htakes =>
    by_cases hij : i = j
    · subst hij
      rcases Table.own_write_cases _ _ _ ho with ⟨old,_,hv,_,rfl⟩ | ho
      · obtain ⟨old',hc,herr⟩ := h.visible hv
        exact ⟨rfl,old',hc,herr⟩
      · exact h.written i k job ho
    · have hfree : q.table.free j picks = true := by
        refine (Table.free_iff _ _ _).mpr fun k hk j' r hp => ?_
        have hnone := (mem_candidates.mp ((takes_iff.mp htakes).2.1 k hk)).1
        rw [hnone] at hp
        cases hp
      rw [leased, Table.own_write_other _ _ _ _ hij hfree] at ho
      exact h.written i k job ho
  | @commit j now picks _ =>
    by_cases hij : i = j
    · subst hij
      simp [handedOut] at ho
    · exact h.written i k job ((Table.own_commit_other _ _ _ _ hij).symm.trans ho)
  | rollback j =>
    by_cases hij : i = j
    · subst hij
      simp [rolledBack] at ho
    · exact h.written i k job ((Table.own_rollback_other _ _ _ _ hij).symm.trans ho)
  | crash j =>
    by_cases hij : i = j
    · subst hij
      simp [crashed, rolledBack] at ho
    · exact h.written i k job ((Table.own_rollback_other _ _ _ _ hij).symm.trans ho)
  | _ => exact h.written i k job ho

theorem turn (h : q.Kept) (ht : q.Turn a q') : q'.Kept := by
  have hold : ∀ hand ∈ q.hands, ∃ job, q'.table.committed hand.job.id = some job ∧ job.errand = hand.job.errand := by
    intro hand hhand
    obtain ⟨job,hjob,herr⟩ := h.held hand hhand
    obtain ⟨job',hjob',herr'⟩ := h.keeps_row ht hjob
    exact ⟨job',hjob',herr'.trans herr⟩
  refine ⟨fun i k job ho => ?_,fun hand hhand => ?_⟩
  · obtain ⟨hactive,old,hc,herr⟩ := h.written_of_turn ht ho
    obtain ⟨old',hc',herr'⟩ := h.keeps_row ht hc
    exact ⟨hactive,old',hc',herr.trans herr'.symm⟩
  · cases ht with
    | @commit i now picks hopen =>
      rcases List.mem_append.mp hhand with hhand | hnew
      · exact hold hand hhand
      · obtain ⟨k,_,job,ho,rfl⟩ := mem_batch.mp hnew
        exact ⟨job,Table.visible_of_own _ _ _ ho,rfl⟩
    | settle _ _ _ _ => exact hold hand (List.mem_of_mem_eraseIdx hhand)
    | crash _ => exact hold hand (List.mem_filter.mp hhand).1
    | _ => exact hold hand hhand

end Kept
end Queue

def DrainAction.mover : DrainAction ι π → Option ι
  | .commit i => some i
  | .start i => some i
  | .reject i => some i
  | .finish i _ => some i
  | .settle i _ => some i
  | .crash i => some i
  | _ => none

namespace Drainage
variable [DecidableEq ι] {d d' : Drainage ι π} {i j : ι}

theorem current_eq_find (d : Drainage ι π) (i : ι) : d.current i = d.queue.hands.find? (·.drainer = i) :=
  List.find?_eq_getElem?_findIdx.symm

theorem current_of_hands (h : d'.queue.hands = d.queue.hands) (j : ι) : d'.current j = d.current j := by
  rw [current_eq_find, current_eq_find, h]

/-- Everything a step can do: to the queue, to the jobs in hand, and to the one tick that moves. -/
inductive Stirs (d : Drainage ι π) : DrainAction ι π → Drainage ι π → Prop
  | quiet {a : DrainAction ι π} {qa : QueueAction ι π} {q : Queue ι π} (still : a.mover = none) (turn : d.queue.Turn qa q)
      (place : qa.place = none) (hands : q.hands = d.queue.hands) (queues : ∀ tenantId input, qa = .enqueue tenantId input → a = .enqueue tenantId input)
      (rests : ∀ i, q.claiming i ≠ none → d.queue.claiming i ≠ none ∨ d.current i = none) : Stirs d a { d with queue := q }
  | commit {i : ι} {now : Int} {picks : List Nat} (opened : d.queue.claiming i = some (now, picks)) :
      Stirs d (.commit i) (({ d with queue := d.queue.handedOut i now picks } : Drainage ι π).enter i .next)
  | start {i : ι} {h : Hand ι π} (current : d.current i = some h) (next : d.phase i = .next) (handler : hasHandler h.job.kind = true) :
      Stirs d (.start i) (d.enter i (.running d.queue.clock))
  | reject {i : ι} {h : Hand ι π} (current : d.current i = some h) (next : d.phase i = .next) (handler : hasHandler h.job.kind = false) :
      Stirs d (.reject i) (d.enter i (.settling (some (noHandlerMessage h.job.kind))))
  | finish {i : ι} {error : Option String} {since : Int} (running : d.phase i = .running since) :
      Stirs d (.finish i error) (d.enter i (.settling error))
  | settle {i : ι} {random : ℚ} {error : Option String} {h : Hand ι π} {f : Job π → Job π} {e : JobEvent}
      (settling : d.phase i = .settling error) (current : d.current i = some h) (free : d.queue.table.pending h.job.id = none)
      (settles : Settles h f e) (completes : e = .completed → error = none) :
      Stirs d (.settle i random) (({ d with queue := d.queue.settled (d.place i) h.job.id f e } : Drainage ι π).enter i .next)
  | crash (i : ι) : Stirs d (.crash i) (({ d with queue := d.queue.crashed i } : Drainage ι π).enter i .next)

private theorem settle_of_settlement {random : ℚ} {error : Option String} {d₁ : Drainage ι π}
    (hs : d.onQueue (d.settlement i random error) = some d₁) : ∃ h f e, d.current i = some h ∧
      d.queue.table.pending h.job.id = none ∧ Settles h f e ∧ (e = .completed → error = none) ∧
      d₁ = { d with queue := d.queue.settled (d.place i) h.job.id f e } := by
  cases error with
  | none =>
    obtain ⟨q,hturn,rfl⟩ := onQueue_some hs
    cases hturn with
    | @settle _ n h f e hplace hhand hfree hset =>
      cases hplace
      exact ⟨h,f,e,hhand,hfree,hset,fun _ => rfl,rfl⟩
  | some message =>
    obtain ⟨q,hq,rfl⟩ := Option.map_eq_some_iff.mp hs
    obtain ⟨h,hhand,hq⟩ := Option.bind_eq_some_iff.mp hq
    have hcases : ∃ f e, Settles h f e ∧ e ≠ .completed ∧ d.queue.settle (d.place i) h.job.id f e = some q := by
      split at hq
      · rename_i hlast
        exact ⟨_,_,.died message hlast,by simp,hq⟩
      · rename_i hmore
        obtain ⟨runAfter,_,hq⟩ := Option.bind_eq_some_iff.mp hq
        exact ⟨_,_,.failed message runAfter (by omega),by simp,hq⟩
    obtain ⟨f,e,hset,hne,hq⟩ := hcases
    simp only [Queue.settle] at hq
    split at hq
    · rename_i hfree
      cases hq
      exact ⟨h,f,e,hhand,by simpa using hfree,hset,fun hc => absurd hc hne,rfl⟩
    · cases hq

theorem stirs_of_step {a : DrainAction ι π} (hs : d.step a = some d') : d.Stirs a d' := by
  cases a with
  | elapse now =>
    obtain ⟨q,hturn,rfl⟩ := onQueue_some hs
    refine .quiet rfl hturn rfl ?_ (fun _ _ h => by cases h) ?_
    · cases hturn with
      | tick _ => rfl
      | settle hplace _ _ _ => cases hplace
    · cases hturn with
      | tick _ => exact fun i hi => .inl hi
      | settle hplace _ _ _ => cases hplace
  | enqueue tenantId input =>
    obtain ⟨q,hturn,rfl⟩ := onQueue_some hs
    refine .quiet rfl hturn rfl ?_ (fun _ _ h => by cases h; rfl) ?_
    · cases hturn with
      | enqueue _ _ => rfl
      | settle hplace _ _ _ => cases hplace
    · cases hturn with
      | enqueue _ _ => exact fun i hi => .inl hi
      | settle hplace _ _ _ => cases hplace
  | claim i limit picks =>
    simp only [Drainage.step] at hs
    split at hs
    · rename_i hrest
      obtain ⟨q,hturn,rfl⟩ := onQueue_some hs
      refine .quiet rfl hturn rfl ?_ (fun _ _ h => by cases h) ?_
      · cases hturn with
        | claim _ _ => rfl
        | settle hplace _ _ _ => cases hplace
      · cases hturn with
        | claim _ _ =>
          intro j hj
          by_cases hji : j = i
          · subst hji
            exact .inr (Option.isNone_iff_eq_none.mp hrest)
          · simp only [Queue.leased, Function.update_of_ne hji] at hj
            exact .inl hj
        | settle hplace _ _ _ => cases hplace
    · cases hs
  | commit i =>
    obtain ⟨d₁,h₁,rfl⟩ := Option.map_eq_some_iff.mp hs
    obtain ⟨q,hturn,rfl⟩ := onQueue_some h₁
    cases hturn with
    | commit hopen => exact .commit hopen
    | settle hplace _ _ _ => cases hplace
  | rollback i =>
    obtain ⟨q,hturn,rfl⟩ := onQueue_some hs
    refine .quiet rfl hturn rfl ?_ (fun _ _ h => by cases h) ?_
    · cases hturn with
      | rollback _ => rfl
      | settle hplace _ _ _ => cases hplace
    · cases hturn with
      | rollback _ =>
        intro j hj
        by_cases hji : j = i
        · subst hji
          simp [Queue.rolledBack] at hj
        · simp only [Queue.rolledBack, Function.update_of_ne hji] at hj
          exact .inl hj
      | settle hplace _ _ _ => cases hplace
  | start i =>
    obtain ⟨h,hcur,hs⟩ := Option.bind_eq_some_iff.mp hs
    split at hs
    · rename_i hok
      cases hs
      exact .start hcur hok.1 hok.2
    · cases hs
  | reject i =>
    obtain ⟨h,hcur,hs⟩ := Option.bind_eq_some_iff.mp hs
    split at hs
    · rename_i hok
      cases hs
      exact .reject hcur hok.1 (by simpa using hok.2)
    · cases hs
  | finish i error =>
    simp only [Drainage.step] at hs
    split at hs
    · rename_i since hrun
      cases hs
      exact .finish hrun
    · cases hs
  | settle i random =>
    simp only [Drainage.step] at hs
    split at hs
    · rename_i error hphase
      obtain ⟨d₁,h₁,rfl⟩ := Option.map_eq_some_iff.mp hs
      obtain ⟨h,f,e,hcur,hfree,hset,hc,rfl⟩ := settle_of_settlement h₁
      exact .settle hphase hcur hfree hset hc
    · cases hs
  | crash i =>
    simp only [Drainage.step] at hs
    obtain ⟨d₁,h₁,rfl⟩ := Option.map_eq_some_iff.mp hs
    obtain ⟨q,hturn,rfl⟩ := onQueue_some h₁
    cases hturn with
    | crash _ => exact .crash i
    | settle hplace _ _ _ => cases hplace

/-- What a tick has in hand is not touched by what happens to the hands of another. -/
private theorem find_eraseIdx {l : List (Hand ι π)} (hj : j ≠ i) :
    (l.eraseIdx (l.findIdx (·.drainer = i))).find? (·.drainer = j) = l.find? (·.drainer = j) := by
  induction l with
  | nil => rfl
  | cons h l ih =>
    by_cases hi : h.drainer = i
    · simp [List.findIdx_cons, hi, Ne.symm hj]
    · simp only [List.findIdx_cons, hi, decide_false, cond_false, List.eraseIdx_cons_succ, List.find?_cons]
      rw [ih]

/-- The ticks that do not move stand where they stood, with the job they had. -/
theorem stands_of_stirs {a : DrainAction ι π} (hs : d.Stirs a d') (hj : a.mover ≠ some j) :
    d'.current j = d.current j ∧ d'.phase j = d.phase j := by
  cases hs with
  | quiet _ _ _ hands _ _ => exact ⟨current_of_hands hands j,rfl⟩
  | @commit i now picks hopen =>
    have hji : j ≠ i := fun h => hj (congrArg some h.symm)
    refine ⟨?_,Function.update_of_ne hji _ _⟩
    have hnone : (d.queue.batch i now picks).find? (·.drainer = j) = none := by
      refine List.find?_eq_none.mpr fun h hh => ?_
      obtain ⟨_,_,_,_,rfl⟩ := Queue.mem_batch.mp hh
      simpa using Ne.symm hji
    rw [current_eq_find, current_eq_find]
    simp only [enter, Queue.handedOut, List.find?_append, hnone, Option.or_none]
  | @settle i random error h f e _ _ _ _ _ =>
    have hji : j ≠ i := fun h => hj (congrArg some h.symm)
    refine ⟨?_,Function.update_of_ne hji _ _⟩
    rw [current_eq_find, current_eq_find]
    exact find_eraseIdx hji
  | crash i =>
    have hji : j ≠ i := fun h => hj (congrArg some h.symm)
    refine ⟨?_,Function.update_of_ne hji _ _⟩
    rw [current_eq_find, current_eq_find]
    simp only [enter, Queue.crashed, List.find?_filter]
    refine congrArg (d.queue.hands.find? ·) (funext fun h => ?_)
    by_cases hd : h.drainer = j
    · simp [hd, hji]
    · simp [hd]
  | start _ _ _ => exact ⟨rfl,Function.update_of_ne (fun h => hj (congrArg some h.symm)) _ _⟩
  | reject _ _ _ => exact ⟨rfl,Function.update_of_ne (fun h => hj (congrArg some h.symm)) _ _⟩
  | finish _ => exact ⟨rfl,Function.update_of_ne (fun h => hj (congrArg some h.symm)) _ _⟩

theorem current_crash (d : Drainage ι π) (i : ι) :
    (({ d with queue := d.queue.crashed i } : Drainage ι π).enter i .next).current i = none := by
  rw [current_eq_find]
  refine List.find?_eq_none.mpr fun h hh => ?_
  have hne := (List.mem_filter.mp hh).2
  simpa using hne

/-- The errands are kept, and a tick that is claiming has nothing in hand. -/
structure Kept (d : Drainage ι π) : Prop where
  queue : d.queue.Kept
  resting : ∀ i, d.queue.claiming i ≠ none → d.current i = none

theorem kept_initial : (initial : Drainage ι π).Kept := ⟨Queue.kept_initial,fun _ h => absurd rfl h⟩

/-- The turn of the queue in a step, if there is one. -/
theorem turn_of_stirs {a : DrainAction ι π} (hs : d.Stirs a d') : d'.queue = d.queue ∨ ∃ qa, d.queue.Turn qa d'.queue := by
  cases hs with
  | quiet _ turn _ _ _ _ => exact .inr ⟨_,turn⟩
  | commit hopen => exact .inr ⟨_,.commit hopen⟩
  | settle _ hcur hfree hset _ => exact .inr ⟨.complete _,.settle rfl hcur hfree hset⟩
  | crash i => exact .inr ⟨_,.crash i⟩
  | start _ _ _ => exact .inl rfl
  | reject _ _ _ => exact .inl rfl
  | finish _ => exact .inl rfl

theorem Kept.step {a : DrainAction ι π} (h : d.Kept) (hs : d.Stirs a d') : d'.Kept := by
  refine ⟨?_,fun j hj => ?_⟩
  · rcases turn_of_stirs hs with heq | ⟨_,turn⟩
    · rw [heq]
      exact h.queue
    · exact h.queue.turn turn
  · cases hs with
    | quiet _ _ _ hands _ rests =>
      rw [current_of_hands hands j]
      exact (rests j hj).elim (h.resting j) id
    | @commit i now picks hopen =>
      by_cases hji : j = i
      · subst hji
        simp [enter, Queue.handedOut] at hj
      · rw [(stands_of_stirs (.commit hopen) (by simpa [DrainAction.mover] using Ne.symm hji)).1]
        exact h.resting j (by simpa [enter, Queue.handedOut, hji] using hj)
    | @settle i random error hand f e hphase hcur hfree hset hc =>
      by_cases hji : j = i
      · subst hji
        rw [h.resting j hj] at hcur
        cases hcur
      · have hmover : (DrainAction.settle (π := π) i random).mover ≠ some j := by simpa [DrainAction.mover] using Ne.symm hji
        rw [(stands_of_stirs (.settle hphase hcur hfree hset hc) hmover).1]
        exact h.resting j hj
    | crash i =>
      by_cases hji : j = i
      · subst hji
        exact current_crash d j
      · rw [(stands_of_stirs (.crash i) (by simpa [DrainAction.mover] using Ne.symm hji)).1]
        exact h.resting j (by simpa [enter, Queue.crashed, Queue.rolledBack, hji] using hj)
    | start _ _ _ => exact h.resting j hj
    | reject _ _ _ => exact h.resting j hj
    | finish _ => exact h.resting j hj

end Drainage

end Nivara.Scheduler
