import Nivara.Scheduler.Exclusivity
import Nivara.Scheduler.Drainer

/-! What the lease excludes. A batch is leased once, at the instant of its tick, and worked one
job after the other; the lease keeps other ticks away as long as it has room for the handlers
that are still to run. -/
namespace Nivara.Scheduler
open Transactions

def requestTimeoutMs : Int := 30000

namespace Drainage
variable {ι π : Type} [DecidableEq ι]

def unsettled (d : Drainage ι π) (i : ι) : Nat := d.queue.hands.countP (·.drainer = i)

/-- The latest instant at which tick `i` can be done with its handlers, when nothing but
handlers takes time from `clock` on and each takes up to the request timeout. -/
def busyUntil (d : Drainage ι π) (clock : Int) (i : ι) : Int :=
  match d.phase i with
  | .next => clock + requestTimeoutMs * d.unsettled i
  | .running since => since + requestTimeoutMs * d.unsettled i
  | .settling _ => clock + requestTimeoutMs * (d.unsettled i - 1)

/-- Each handler is over within the request timeout. -/
def handlersTimely (d : Drainage ι π) : DrainAction ι π → Bool
  | .elapse now => d.queue.hands.all fun h =>
      match d.phase h.drainer with
      | .running since => now ≤ since + requestTimeoutMs
      | _ => true
  | _ => true

/-- A batch, when it is returned and whenever its tick pauses, leaves room in its lease for the
handlers that are still to run. -/
def leavesRoom (d : Drainage ι π) : DrainAction ι π → Bool
  | .elapse now => d.queue.hands.all fun h => d.busyUntil now h.drainer ≤ h.now + leaseMs
  | .commit i => (d.queue.claiming i).all fun (now, picks) =>
      d.queue.clock + requestTimeoutMs * picks.length ≤ now + leaseMs
  | _ => true

def runs (d : Drainage ι π) (i : ι) (h : Hand ι π) : Prop :=
  d.current i = some h ∧ ∃ since, d.phase i = .running since

/-- No job is claimed while another tick has it unsettled, and no two of its handlers overlap. -/
structure Exclusive (d : Drainage ι π) : Prop where
  once : (d.queue.hands.map (·.job.id)).Nodup
  unclaimed : ∀ i now picks, d.queue.claiming i = some (now, picks) → ∀ h ∈ d.queue.hands, h.job.id ∉ picks
  apart : ∀ i j h h', d.runs i h → d.runs j h' → h.job.id = h'.job.id → i = j

/-- Every holder has its job's latest claim, and its lease outlasts its batch. -/
structure Leased (d : Drainage ι π) : Prop where
  orderly : d.queue.Orderly
  latest : ∀ h ∈ d.queue.hands, ∀ job ∈ d.queue.table.committed h.job.id, job.attempts = h.job.attempts
  unclaimed : ∀ i now picks, d.queue.claiming i = some (now, picks) → ∀ h ∈ d.queue.hands, h.job.id ∉ picks
  resting : ∀ i, d.queue.claiming i ≠ none → ∀ h ∈ d.queue.hands, h.drainer ≠ i
  room : ∀ h ∈ d.queue.hands, d.busyUntil d.queue.clock h.drainer ≤ h.now + leaseMs
  timely : ∀ h ∈ d.queue.hands, ∀ since, d.phase h.drainer = .running since → d.queue.clock ≤ since + requestTimeoutMs

theorem leased_initial : (initial : Drainage ι π).Leased where
  orderly := Queue.orderly_initial
  latest h hh := by cases hh
  unclaimed i now picks h := by cases h
  resting i h := absurd rfl h
  room h hh := by cases hh
  timely h hh := by cases hh

theorem current_mem {d : Drainage ι π} {i : ι} {h : Hand ι π} (hc : d.current i = some h) :
    h ∈ d.queue.hands ∧ h.drainer = i := by
  obtain ⟨hlt,hget⟩ := List.getElem?_eq_some_iff.mp hc
  refine ⟨List.mem_of_getElem? hc,?_⟩
  have hp : decide (d.queue.hands[d.place i].drainer = i) = true := List.findIdx_getElem (w := hlt)
  rw [hget] at hp
  exact of_decide_eq_true hp

theorem onQueue_some {d d' : Drainage ι π} {a : QueueAction ι π} (h : d.onQueue a = some d') :
    ∃ q, d.queue.Turn a q ∧ d' = { d with queue := q } := by
  obtain ⟨q,hq,rfl⟩ := Option.map_eq_some_iff.mp h
  exact ⟨q,Queue.turn_of_step hq,rfl⟩

namespace Leased
variable {d : Drainage ι π}

theorem unsettled_pos {h : Hand ι π} (hh : h ∈ d.queue.hands) : 0 < d.unsettled h.drainer :=
  List.countP_pos_iff.mpr ⟨h,hh,by simp⟩

/-- No unsettled job has outlived its lease. -/
theorem within (hl : d.Leased) {h : Hand ι π} (hh : h ∈ d.queue.hands) : d.queue.clock ≤ h.now + leaseMs := by
  have hroom := hl.room h hh
  have hpos := unsettled_pos hh
  simp only [busyUntil, requestTimeoutMs] at hroom
  cases hp : d.phase h.drainer with
  | next =>
    rw [hp] at hroom
    dsimp only at hroom
    omega
  | running since =>
    have htimely := hl.timely h hh since hp
    rw [hp] at hroom
    dsimp only [requestTimeoutMs] at hroom htimely
    omega
  | settling error =>
    rw [hp] at hroom
    dsimp only at hroom
    omega

/-- No claim finds a job due that a holder has in time. -/
theorem not_due (hl : d.Leased) {h : Hand ι π} (hh : h ∈ d.queue.hands) {job : Job π}
    (hjob : d.queue.table.committed h.job.id = some job) : job.isDue d.queue.clock = false := by
  obtain ⟨hactive,hlock⟩ := (hl.orderly.fits hh rfl hjob).active (hl.latest h hh job hjob).symm
  have hwithin := hl.within hh
  rw [Bool.eq_false_iff]
  intro hdue
  rcases Job.isDue_iff.mp hdue with ⟨hready,_⟩ | ⟨_,at',hat,hlt⟩
  · rw [hactive] at hready
    cases hready
  · cases hlock.symm.trans hat
    omega

/-- One holder for each job. -/
theorem eq_of_id (hl : d.Leased) {h h' : Hand ι π} (hh : h ∈ d.queue.hands) (hh' : h' ∈ d.queue.hands)
    (hid : h.job.id = h'.job.id) : h.job.attempts = h'.job.attempts := by
  obtain ⟨job,hjob,_⟩ := hl.orderly.held h hh
  rw [← hl.latest h hh job hjob]
  exact hl.latest h' hh' job (hid ▸ hjob)

/-! Steps that leave the batches and the phases alone. -/

private theorem elapse (hl : d.Leased) {now : Int} (hnow : d.queue.clock ≤ now)
    (ht : d.handlersTimely (.elapse now) = true) (hr : d.leavesRoom (.elapse now) = true) :
    ({ d with queue := { d.queue with clock := now } } : Drainage ι π).Leased where
  orderly := hl.orderly.tick hnow
  latest := hl.latest
  unclaimed := hl.unclaimed
  resting := hl.resting
  room h hh := of_decide_eq_true (List.all_eq_true.mp hr h hh)
  timely h hh since hp := by
    have := List.all_eq_true.mp ht h hh
    have hp' : d.phase h.drainer = .running since := hp
    rw [hp'] at this
    exact of_decide_eq_true this

private theorem enqueue (hl : d.Leased) (tenantId : Uuid) (input : EnqueueInput π) :
    ({ d with queue := { d.queue with table := d.queue.table.append (enqueued tenantId input d.queue.clock) } } :
      Drainage ι π).Leased where
  orderly := hl.orderly.enqueue tenantId input
  latest h hh job hjob := by
    obtain ⟨job',hjob',_⟩ := hl.orderly.held h hh
    cases (Table.append_committed_of_committed _ _ hjob').symm.trans hjob
    exact hl.latest h hh job hjob'
  unclaimed := hl.unclaimed
  resting := hl.resting
  room := hl.room
  timely := hl.timely

private theorem rollback (hl : d.Leased) (i : ι) :
    ({ d with queue := d.queue.rolledBack i } : Drainage ι π).Leased where
  orderly := hl.orderly.rollback i
  latest := hl.latest
  unclaimed j now picks hj := by
    by_cases hji : j = i
    · subst hji
      simp [Queue.rolledBack] at hj
    · simp only [Queue.rolledBack, Function.update_of_ne hji] at hj
      exact hl.unclaimed j now picks hj
  resting j hj := by
    by_cases hji : j = i
    · subst hji
      simp [Queue.rolledBack] at hj
    · simp only [Queue.rolledBack, Function.update_of_ne hji] at hj
      exact hl.resting j hj
  room := hl.room
  timely := hl.timely

private theorem claim (hl : d.Leased) {i : ι} {batch : Nat} {picks : List Nat} (hrest : d.current i = none)
    (hidle : d.queue.claiming i = none) (htakes : d.queue.takes batch picks = true) :
    ({ d with queue := d.queue.leased i picks } : Drainage ι π).Leased where
  orderly := hl.orderly.claim hidle htakes
  latest := hl.latest
  unclaimed j now ps hj h hh := by
    by_cases hji : j = i
    · subst hji
      simp only [Queue.leased, Function.update_self, Option.some.injEq, Prod.mk.injEq] at hj
      obtain ⟨rfl,rfl⟩ := hj
      intro hk
      obtain ⟨_,hcand,_⟩ := Queue.takes_iff.mp htakes
      obtain ⟨_,job,hjob,hdue⟩ := Queue.mem_candidates.mp (hcand _ hk)
      rw [hl.not_due hh hjob] at hdue
      cases hdue
    · simp only [Queue.leased, Function.update_of_ne hji] at hj
      exact hl.unclaimed j now ps hj h hh
  resting j hj h hh := by
    by_cases hji : j = i
    · subst hji
      rintro rfl
      have hlt : d.place h.drainer < d.queue.hands.length :=
        List.findIdx_lt_length_of_exists ⟨h,hh,by simp⟩
      rw [current, List.getElem?_eq_getElem hlt] at hrest
      cases hrest
    · simp only [Queue.leased, Function.update_of_ne hji] at hj
      exact hl.resting j hj h hh
  room := hl.room
  timely := hl.timely

/-! Steps of one tick between two statements. -/

private theorem reenter (hl : d.Leased) (i : ι) (phase : Phase)
    (hroom : ∀ h ∈ d.queue.hands, h.drainer = i → (d.enter i phase).busyUntil d.queue.clock i ≤ h.now + leaseMs)
    (htimely : ∀ since, phase = .running since → d.queue.clock ≤ since + requestTimeoutMs) :
    (d.enter i phase).Leased where
  orderly := hl.orderly
  latest := hl.latest
  unclaimed := hl.unclaimed
  resting := hl.resting
  room h hh := by
    by_cases hi : h.drainer = i
    · rw [hi]
      exact hroom h hh hi
    · have := hl.room h hh
      simpa only [busyUntil, unsettled, enter, Function.update_of_ne hi] using this
  timely h hh since hp := by
    by_cases hi : h.drainer = i
    · rw [hi] at hp
      exact htimely since (by simpa [enter] using hp)
    · simp only [enter, Function.update_of_ne hi] at hp
      exact hl.timely h hh since hp

private theorem start (hl : d.Leased) {i : ι} (hnext : d.phase i = .next) :
    (d.enter i (.running d.queue.clock)).Leased := by
  refine hl.reenter i _ (fun h hh hi => ?_) ?_
  · have hroom := hl.room h hh
    rw [hi] at hroom
    simpa [busyUntil, unsettled, hnext, enter] using hroom
  · rintro since ⟨⟩
    simp [requestTimeoutMs]

private theorem reject (hl : d.Leased) {i : ι} (hnext : d.phase i = .next) (error : Option String) :
    (d.enter i (.settling error)).Leased := by
  refine hl.reenter i _ (fun h hh hi => ?_) (by rintro _ ⟨⟩)
  have hroom := hl.room h hh
  rw [hi] at hroom
  simp only [busyUntil, hnext, enter, Function.update_self, unsettled, requestTimeoutMs] at hroom ⊢
  omega

private theorem finish (hl : d.Leased) {i : ι} {since : Int} (hrun : d.phase i = .running since)
    (error : Option String) : (d.enter i (.settling error)).Leased := by
  refine hl.reenter i _ (fun h hh hi => ?_) (by rintro _ ⟨⟩)
  have hroom := hl.room h hh
  have htimely := hl.timely h hh since (by rw [hi, hrun])
  rw [hi] at hroom
  simp only [busyUntil, hrun, enter, Function.update_self, unsettled, requestTimeoutMs] at hroom htimely ⊢
  omega

/-! Steps that change the batches. -/

private theorem busyUntil_le {d' : Drainage ι π} {i : ι} (hphase : d'.phase i = d.phase i)
    (hle : d'.unsettled i ≤ d.unsettled i) (clock : Int) : d'.busyUntil clock i ≤ d.busyUntil clock i := by
  simp only [busyUntil, hphase, requestTimeoutMs]
  split <;> omega

private theorem crash (hl : d.Leased) (i : ι) :
    (({ d with queue := d.queue.crashed i } : Drainage ι π).enter i .next).Leased := by
  have hback := hl.rollback i
  have hmem : ∀ h ∈ (d.queue.crashed i).hands, h ∈ d.queue.hands ∧ h.drainer ≠ i := by
    intro h hh
    obtain ⟨hh,hi⟩ := List.mem_filter.mp hh
    exact ⟨hh,of_decide_eq_true hi⟩
  refine ⟨hl.orderly.crash i,?_,?_,?_,?_,?_⟩
  · exact fun h hh => hl.latest h (hmem h hh).1
  · exact fun j now picks hj h hh => hback.unclaimed j now picks hj h (hmem h hh).1
  · exact fun j hj h hh => hback.resting j hj h (hmem h hh).1
  · intro h hh
    obtain ⟨hh,hi⟩ := hmem h hh
    refine Int.le_trans (busyUntil_le (by simp [enter, hi]) ?_ _) (hl.room h hh)
    exact (List.filter_sublist.countP_le)
  · intro h hh since hp
    obtain ⟨hh,hi⟩ := hmem h hh
    simp only [enter, Function.update_of_ne hi] at hp
    exact hl.timely h hh since hp

private theorem unsettled_handedOut (ho : d.queue.Orderly) {i : ι} {now : Int} {picks : List Nat}
    (hopen : d.queue.claiming i = some (now, picks)) (hrest : ∀ h ∈ d.queue.hands, h.drainer ≠ i) (j : ι) :
    (d.queue.handedOut i now picks).hands.countP (·.drainer = j) = if j = i then picks.length else d.unsettled j := by
  have hbatch : ∀ h ∈ d.queue.batch i now picks, h.drainer = i := by
    intro h hh
    obtain ⟨_,_,_,_,_,rfl⟩ := ho.of_mem_batch hopen hh
    rfl
  simp only [Queue.handedOut, List.countP_append]
  by_cases hji : j = i
  · subst hji
    have hold : d.queue.hands.countP (·.drainer = j) = 0 := List.countP_eq_zero.mpr (by simpa using hrest)
    have hnew : (d.queue.batch j now picks).countP (·.drainer = j) = picks.length := by
      rw [List.countP_eq_length.mpr (by simpa using hbatch)]
      simpa using congrArg List.length (ho.batch_ids hopen)
    rw [if_pos rfl, hold, hnew, Nat.zero_add]
  · have hnew : (d.queue.batch i now picks).countP (·.drainer = j) = 0 := by
      refine List.countP_eq_zero.mpr fun h hh => ?_
      simpa [hbatch h hh] using Ne.symm hji
    rw [if_neg hji, hnew, Nat.add_zero, unsettled]

private theorem commit (hl : d.Leased) {i : ι} {now : Int} {picks : List Nat}
    (hopen : d.queue.claiming i = some (now, picks)) (hr : d.leavesRoom (.commit i) = true) :
    (({ d with queue := d.queue.handedOut i now picks } : Drainage ι π).enter i .next).Leased := by
  have ho := hl.orderly
  have hrest : ∀ h ∈ d.queue.hands, h.drainer ≠ i := hl.resting i (by simp [hopen])
  have hcount := unsettled_handedOut ho hopen hrest
  have hroom : d.queue.clock + requestTimeoutMs * picks.length ≤ now + leaseMs := by
    simpa [leavesRoom, hopen] using hr
  refine ⟨ho.commit hopen,?_,?_,?_,?_,?_⟩
  · intro h hh job hjob
    rcases List.mem_append.mp hh with hh | hh
    · rcases ho.committed_handedOut hopen h.job.id with ⟨hpick,_⟩ | ⟨_,hsame⟩
      · exact absurd hpick (hl.unclaimed i now picks hopen h hh)
      · exact hl.latest h hh job (hsame.symm.trans hjob)
    · obtain ⟨k,_,old,_,hown,rfl⟩ := ho.of_mem_batch hopen hh
      cases (Table.visible_of_own _ _ _ hown).symm.trans hjob
      rfl
  · intro j now' picks' hj h hh
    by_cases hji : j = i
    · subst hji
      simp [enter, Queue.handedOut] at hj
    · simp only [enter, Queue.handedOut, Function.update_of_ne hji] at hj
      rcases List.mem_append.mp hh with hh | hh
      · exact hl.unclaimed j now' picks' hj h hh
      · obtain ⟨k,hk,old,_,_,rfl⟩ := ho.of_mem_batch hopen hh
        exact ho.disjoint (Ne.symm hji) hopen hj hk
  · intro j hj h hh
    by_cases hji : j = i
    · subst hji
      simp [enter, Queue.handedOut] at hj
    · simp only [enter, Queue.handedOut, Function.update_of_ne hji] at hj
      rcases List.mem_append.mp hh with hh | hh
      · exact hl.resting j hj h hh
      · obtain ⟨_,_,_,_,_,rfl⟩ := ho.of_mem_batch hopen hh
        exact Ne.symm hji
  · intro h hh
    rcases List.mem_append.mp hh with hh | hh
    · refine Int.le_trans (busyUntil_le ?_ ?_ _) (hl.room h hh)
      · simp [enter, hrest h hh]
      · have := hcount h.drainer
        rw [if_neg (hrest h hh)] at this
        exact Nat.le_of_eq this
    · obtain ⟨_,_,_,_,_,rfl⟩ := ho.of_mem_batch hopen hh
      have := hcount i
      rw [if_pos rfl] at this
      simp only [busyUntil, enter, Function.update_self, unsettled, this]
      exact hroom
  · intro h hh since hp
    rcases List.mem_append.mp hh with hh | hh
    · simp only [enter, Function.update_of_ne (hrest h hh)] at hp
      exact hl.timely h hh since hp
    · obtain ⟨_,_,_,_,_,rfl⟩ := ho.of_mem_batch hopen hh
      simp [enter] at hp

private theorem countP_eraseIdx {α : Type} {p : α → Bool} {l : List α} {n : Nat} {a : α} (hn : l[n]? = some a)
    (hp : p a = true) : (l.eraseIdx n).countP p + 1 = l.countP p := by
  induction l generalizing n with
  | nil => cases hn
  | cons b l ih =>
    cases n with
    | zero =>
      cases hn
      simp [hp]
    | succ n =>
      have := ih hn
      simp only [List.eraseIdx_cons_succ, List.countP_cons]
      omega

private theorem settle (hl : d.Leased) {i : ι} {h : Hand ι π} {f : Job π → Job π} {e : JobEvent}
    {error : Option String} (hphase : d.phase i = .settling error) (hcur : d.current i = some h)
    (hfree : d.queue.table.pending h.job.id = none) (hs : Settles h f e) :
    (({ d with queue := d.queue.settled (d.place i) h.job.id f e } : Drainage ι π).enter i .next).Leased := by
  obtain ⟨hh,hi⟩ := current_mem hcur
  have hmem : ∀ h' ∈ d.queue.hands.eraseIdx (d.place i), h' ∈ d.queue.hands :=
    fun h' hh' => List.mem_of_mem_eraseIdx hh'
  refine ⟨hl.orderly.settle hcur hfree hs (hl.latest h hh),?_,?_,?_,?_,?_⟩
  · intro h' hh' job hjob
    have hne : h'.job.id ≠ h.job.id := fun hid =>
      hl.orderly.attempts_ne hcur hh' hid (hl.eq_of_id (hmem h' hh') hh hid)
    simp only [enter, Queue.settled, Table.amend_committed, if_neg hne] at hjob
    exact hl.latest h' (hmem h' hh') job hjob
  · exact fun j now picks hj h' hh' => hl.unclaimed j now picks hj h' (hmem h' hh')
  · exact fun j hj h' hh' => hl.resting j hj h' (hmem h' hh')
  · intro h' hh'
    have hroom := hl.room h' (hmem h' hh')
    by_cases hi' : h'.drainer = i
    · have hcount : (d.queue.hands.eraseIdx (d.place i)).countP (·.drainer = i) + 1 = d.unsettled i :=
        countP_eraseIdx hcur (by simpa using hi)
      rw [hi'] at hroom ⊢
      simp only [busyUntil, hphase, enter, Function.update_self, unsettled, Queue.settled, requestTimeoutMs]
        at hroom hcount ⊢
      omega
    · refine Int.le_trans (busyUntil_le (by simp [enter, hi']) ?_ _) hroom
      exact (List.eraseIdx_sublist _ _).countP_le
  · intro h' hh' since hp
    by_cases hi' : h'.drainer = i
    · simp [enter, hi'] at hp
    · simp only [enter, Function.update_of_ne hi'] at hp
      exact hl.timely h' (hmem h' hh') since hp

/-- The statement a tick settles with is that of its current job. -/
private theorem place_settlement (d : Drainage ι π) (i : ι) (random : ℚ) (error : Option String) :
    (d.settlement i random error).place = some (d.place i) := by
  cases error <;> rfl

theorem step (hl : d.Leased) {a : DrainAction ι π} {d' : Drainage ι π} (ht : d.handlersTimely a = true)
    (hr : d.leavesRoom a = true) (hs : d.step a = some d') : d'.Leased := by
  cases a with
  | elapse now =>
    obtain ⟨q,hturn,rfl⟩ := onQueue_some hs
    cases hturn with
    | tick hnow => exact hl.elapse hnow ht hr
    | settle hplace _ _ _ => cases hplace
  | enqueue tenantId input =>
    obtain ⟨q,hturn,rfl⟩ := onQueue_some hs
    cases hturn with
    | enqueue _ _ => exact hl.enqueue tenantId input
    | settle hplace _ _ _ => cases hplace
  | claim i limit picks =>
    simp only [Drainage.step] at hs
    split at hs
    · rename_i hrest
      obtain ⟨q,hturn,rfl⟩ := onQueue_some hs
      cases hturn with
      | claim hidle htakes => exact hl.claim (Option.isNone_iff_eq_none.mp hrest) hidle htakes
      | settle hplace _ _ _ => cases hplace
    · cases hs
  | commit i =>
    obtain ⟨d₁,h₁,rfl⟩ := Option.map_eq_some_iff.mp hs
    obtain ⟨q,hturn,rfl⟩ := onQueue_some h₁
    cases hturn with
    | commit hopen => exact hl.commit hopen hr
    | settle hplace _ _ _ => cases hplace
  | rollback i =>
    obtain ⟨q,hturn,rfl⟩ := onQueue_some hs
    cases hturn with
    | rollback _ => exact hl.rollback i
    | settle hplace _ _ _ => cases hplace
  | start i =>
    obtain ⟨h,_,hs⟩ := Option.bind_eq_some_iff.mp hs
    split at hs
    · rename_i hnext
      cases hs
      exact hl.start hnext.1
    · cases hs
  | reject i =>
    obtain ⟨h,_,hs⟩ := Option.bind_eq_some_iff.mp hs
    split at hs
    · rename_i hnext
      cases hs
      exact hl.reject hnext.1 _
    · cases hs
  | finish i error =>
    simp only [Drainage.step] at hs
    split at hs
    · rename_i since hrun
      cases hs
      exact hl.finish hrun error
    · cases hs
  | settle i random =>
    simp only [Drainage.step] at hs
    split at hs
    · rename_i error hphase
      obtain ⟨d₁,h₁,rfl⟩ := Option.map_eq_some_iff.mp hs
      obtain ⟨q,hturn,rfl⟩ := onQueue_some h₁
      have hplace := place_settlement d i random error
      generalize d.settlement i random error = a at hturn hplace
      cases hturn with
      | settle hplace' hhand hfree hset =>
        cases hplace.symm.trans hplace'
        exact hl.settle hphase hhand hfree hset
      | _ => cases hplace
    · cases hs
  | crash i =>
    simp only [Drainage.step] at hs
    obtain ⟨d₁,h₁,rfl⟩ := Option.map_eq_some_iff.mp hs
    obtain ⟨q,hturn,rfl⟩ := onQueue_some h₁
    cases hturn with
    | crash _ => exact hl.crash i
    | settle hplace _ _ _ => cases hplace

theorem exclusive (hl : d.Leased) : d.Exclusive where
  once := by
    -- the latest claim of a job is one
    have hinj : ∀ h ∈ d.queue.hands, ∀ h' ∈ d.queue.hands, h.job.id = h'.job.id →
        (h.job.id, h.job.attempts) = (h'.job.id, h'.job.attempts) :=
      fun h hh h' hh' hid => Prod.ext hid (hl.eq_of_id hh hh' hid)
    refine List.pairwise_map.mpr ?_
    refine (List.pairwise_map.mp hl.orderly.distinct).imp_of_mem fun hh hh' hne hid => ?_
    exact hne (hinj _ hh _ hh' hid)
  unclaimed := hl.unclaimed
  apart i j h h' hi hj hid := by
    obtain ⟨hh,rfl⟩ := current_mem hi.1
    obtain ⟨hh',rfl⟩ := current_mem hj.1
    have hkey : (h.job.id, h.job.attempts) = (h'.job.id, h'.job.attempts) :=
      Prod.ext hid (hl.eq_of_id hh hh' hid)
    rw [List.inj_on_of_nodup_map hl.orderly.distinct hh hh' hkey]

end Leased

theorem leased_of_run {acts : List (DrainAction ι π)} {d : Drainage ι π}
    (hr : Run step (fun d a => d.handlersTimely a = true ∧ d.leavesRoom a = true) initial acts d) : d.Leased :=
  hr.invariant leased_initial fun _ _ _ hl ha hs => hl.step ha.1 ha.2 hs

/-- No job is claimed while another tick has it unsettled, and no two handlers of a job overlap,
in every run in which a batch leaves room in its lease for the handlers that are still to run. -/
theorem exclusive_of_leavesRoom {acts : List (DrainAction ι π)} {d : Drainage ι π}
    (hr : Run step (fun d a => d.handlersTimely a = true ∧ d.leavesRoom a = true) initial acts d) : d.Exclusive :=
  (leased_of_run hr).exclusive

def replyJob : EnqueueInput Unit := ⟨outboundDeliveryJob, (), none, none⟩

def slowHandler (i : Nat) (now : Int) : List (DrainAction Nat Unit) :=
  [.start i, .elapse (now + 30000), .finish i none, .settle i 0]

/-- A batch of ten, each handler as slow as allowed; a second tick comes at every handler's end. -/
def tenSlow : List (DrainAction Nat Unit) :=
  List.replicate 10 (DrainAction.enqueue 7 replyJob) ++ [DrainAction.claim 0 (.finite 10) (List.range 10), .commit 0] ++
    (List.range 9).flatMap (fun n : Nat => slowHandler 0 (30000 * n) ++ [DrainAction.claim 1 (.finite 20) [], .commit 1]) ++
    [DrainAction.start 0, .elapse 300000]

theorem exclusive_of_tenSlow : ∃ d : Drainage Nat Unit,
    Run step (fun d a => d.handlersTimely a = true ∧ d.leavesRoom a = true) initial tenSlow d ∧ d.Exclusive ∧
    d.queue.hands.map (·.job.id) = [9] ∧ d.phase 0 = .running 270000 := by
  have hexec : (exec step (fun d a => d.handlersTimely a = true ∧ d.leavesRoom a = true) initial tenSlow).any fun d =>
      d.queue.hands.map (·.job.id) = [9] ∧ d.phase 0 = .running 270000 := by
    decide +kernel
  obtain ⟨d,hd,hend⟩ := exec_any hexec
  exact ⟨d,hd,exclusive_of_leavesRoom hd,of_decide_eq_true hend⟩

/-- A batch of eleven, each handler as slow as allowed. A second tick comes a millisecond after
the eleventh handler began. -/
def elevenSlow : List (DrainAction Nat Unit) :=
  List.replicate 11 (DrainAction.enqueue 7 replyJob) ++ [DrainAction.claim 0 (.finite 20) (List.range 11), .commit 0] ++
    (List.range 10).flatMap (fun n : Nat => slowHandler 0 (30000 * n)) ++
    [DrainAction.start 0, .elapse 300001, .claim 1 (.finite 20) [10], .commit 1, .start 1]

/-- Both ticks hold the eleventh job and run its handler, though no handler was late and no
tick died. -/
theorem elevenSlow_runs_twice : ∃ d : Drainage Nat Unit,
    Run step (fun d a => d.handlersTimely a = true) initial elevenSlow d ∧ (∀ i, .crash i ∉ elevenSlow) ∧
    ¬ d.Exclusive ∧ d.queue.hands.map (fun h => (h.drainer, h.job.id)) = [(0, 10), (1, 10)] ∧
    d.phase 0 = .running 300000 ∧ d.phase 1 = .running 300001 := by
  have hexec : (exec step (fun d a => d.handlersTimely a = true) initial elevenSlow).any fun d =>
      d.queue.hands.map (fun h => (h.drainer, h.job.id)) = [(0, 10), (1, 10)] ∧
      d.phase 0 = .running 300000 ∧ d.phase 1 = .running 300001 := by
    decide +kernel
  obtain ⟨d,hd,hend⟩ := exec_any hexec
  have hend' := of_decide_eq_true hend
  refine ⟨d,hd,?_,fun hex => ?_,hend'⟩
  · intro i
    simp [elevenSlow, slowHandler]
  · have hids : d.queue.hands.map (·.job.id) = [10, 10] := by
      simpa [Function.comp_def] using congrArg (List.map Prod.snd) hend'.1
    have honce := hex.once
    rw [hids] at honce
    exact absurd honce (by decide)

end Drainage
end Nivara.Scheduler
