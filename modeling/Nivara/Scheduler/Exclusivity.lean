import Mathlib.Data.List.Perm.Subperm
import Nivara.Scheduler.Custody

/-! The law of the queue when every holder settles within its lease or never: no job is out
twice, none is lost, and the columns agree. -/
namespace Nivara.Scheduler
open Transactions

variable {ι π : Type}

/-- The clamp: between 1 and 1000, and the truncated limit where that lies between them. -/
theorem batchSize_clamped (limit : JsNumber) : 1 ≤ batchSize limit ∧ batchSize limit ≤ maxClaimBatch ∧
    ∀ x, limit = .finite x → 1 ≤ trunc x → trunc x ≤ maxClaimBatch → (batchSize limit : Int) = trunc x := by
  cases limit with
  | nan => exact ⟨by decide,by decide,by rintro _ ⟨⟩⟩
  | negInfinity => exact ⟨by decide,by decide,by rintro _ ⟨⟩⟩
  | posInfinity => exact ⟨by decide,by decide,by rintro _ ⟨⟩⟩
  | finite q =>
    simp only [batchSize, maxClaimBatch, claimBatch]
    refine ⟨by omega,by omega,?_⟩
    rintro _ ⟨⟩ h₁ h₂
    rw [if_neg (by omega)]
    omega

def Job.dueAt (job : Job π) : Int :=
  match job.lockedAt with
  | none => job.runAfter
  | some now => now + leaseMs + 1

/-- A job that is neither done nor dead falls in one of the claim's two cases. -/
theorem Life.isDue {es : List JobEvent} {job : Job π} (hl : Life es job)
    (hterm : job.status ≠ .done ∧ job.status ≠ .dead) {now : Int} (hnow : job.dueAt ≤ now) : job.isDue now = true := by
  rw [Job.isDue_iff]
  cases hs : job.status with
  | ready =>
    have hlock : job.lockedAt = none := by
      by_contra hne
      rw [hl.locked.mp hne] at hs
      cases hs
    simp only [Job.dueAt, hlock] at hnow
    exact .inl ⟨rfl,hnow⟩
  | active =>
    obtain ⟨at',hat⟩ := Option.ne_none_iff_exists'.mp (hl.locked.mpr hs)
    simp only [Job.dueAt, hat] at hnow
    exact .inr ⟨rfl,at',hat,by omega⟩
  | done => exact absurd hs hterm.1
  | dead => exact absurd hs hterm.2

namespace Queue

def dueBefore (q : Queue ι π) (k : Nat) : Nat :=
  q.candidates.countP fun k' => k' ≠ k ∧ q.runAfter k' < q.runAfter k

/-- How many other due jobs may be put before job `k`, those of the same instant included. -/
def dueNoLater (q : Queue ι π) (k : Nat) : Nat :=
  q.candidates.countP fun k' => k' ≠ k ∧ q.runAfter k' ≤ q.runAfter k

/-- The order of `ORDER BY run_after` in which job `k` comes first among those of its instant. -/
def ranks (q : Queue ι π) (k a b : Nat) : Bool :=
  q.runAfter a < q.runAfter b ∨ (q.runAfter a = q.runAfter b ∧ (a = k ∨ b ≠ k))

/-- A batch the database may return when it resolves ties in favour of job `k`. -/
def favouring (q : Queue ι π) (k batch : Nat) : List Nat := (q.candidates.mergeSort (q.ranks k)).take batch

theorem candidates_nodup (q : Queue ι π) : q.candidates.Nodup := List.nodup_range.filter _

private theorem ranks_pairwise (q : Queue ι π) (k : Nat) :
    (q.candidates.mergeSort (q.ranks k)).Pairwise fun a b => q.ranks k a b = true := by
  refine List.pairwise_mergeSort ?_ ?_ _
  · intro a b c hab hbc
    simp only [ranks, decide_eq_true_eq] at hab hbc ⊢
    by_cases hb : b = k
    · subst hb
      rcases hab with hab | ⟨hab,hka⟩
      · rcases hbc with hbc | ⟨hbc,_⟩
        · exact .inl (by omega)
        · exact .inl (by omega)
      · have hka' : a = b := by simpa using hka
        subst hka'
        exact hbc
    · rcases hab with hab | ⟨hab,_⟩
      · rcases hbc with hbc | ⟨hbc,_⟩
        · exact .inl (by omega)
        · exact .inl (by omega)
      · rcases hbc with hbc | ⟨hbc,hkb⟩
        · exact .inl (by omega)
        · exact .inr ⟨by omega,.inr (by simpa [hb] using hkb)⟩
  · intro a b
    simp only [ranks, Bool.or_eq_true, decide_eq_true_eq]
    rcases lt_trichotomy (q.runAfter a) (q.runAfter b) with hlt | heq | hgt
    · exact .inl (.inl hlt)
    · by_cases ha : a = k
      · exact .inl (.inr ⟨heq,.inl ha⟩)
      · exact .inr (.inr ⟨heq.symm,.inr ha⟩)
    · exact .inr (.inl hgt)

private theorem ranks_of_favouring {q : Queue ι π} {k batch a b : Nat} (ha : a ∈ q.favouring k batch)
    (hb : b ∈ q.candidates) (hnb : b ∉ q.favouring k batch) : q.ranks k a b = true := by
  have hsplit := List.take_append_drop batch (q.candidates.mergeSort (q.ranks k))
  have hpair := q.ranks_pairwise k
  rw [← hsplit, List.pairwise_append] at hpair
  have hb' : b ∈ q.candidates.mergeSort (q.ranks k) := List.mem_mergeSort.mpr hb
  rw [← hsplit] at hb'
  rcases List.mem_append.mp hb' with htake | hdrop
  · exact absurd htake hnb
  · exact hpair.2.2 a ha b hdrop

theorem takes_favouring (q : Queue ι π) (k batch : Nat) : q.takes batch (q.favouring k batch) = true := by
  refine takes_iff.mpr ⟨?_,?_,?_,?_⟩
  · have hperm := List.mergeSort_perm q.candidates (q.ranks k)
    exact (hperm.symm.nodup q.candidates_nodup).sublist (List.take_sublist _ _)
  · intro a ha
    exact List.mem_mergeSort.mp (List.mem_of_mem_take ha)
  · simp [favouring]
  · intro a ha b hb hnb
    have hle := ranks_of_favouring ha hb hnb
    simp only [ranks, decide_eq_true_eq] at hle
    omega

/-- Rows that are all candidates with `p` are no more than those there are. -/
private theorem length_le_countP {q : Queue ι π} {picks : List Nat} (hnodup : picks.Nodup) {p : Nat → Bool}
    (hp : ∀ a ∈ picks, a ∈ q.candidates ∧ p a = true) : picks.length ≤ q.candidates.countP p := by
  rw [List.countP_eq_length_filter]
  exact (hnodup.subperm fun a ha => List.mem_filter.mpr (hp a ha)).length_le

private theorem length_of_left_out {q : Queue ι π} {batch k : Nat} {picks : List Nat}
    (htakes : q.takes batch picks = true) (hk : k ∈ q.candidates) (hout : k ∉ picks) : picks.length = batch := by
  obtain ⟨hnodup,hcand,hlen,_⟩ := takes_iff.mp htakes
  have hmore : (k :: picks).length ≤ q.candidates.length := by
    refine ((List.nodup_cons.mpr ⟨hout,hnodup⟩).subperm fun a ha => ?_).length_le
    rcases List.mem_cons.mp ha with rfl | ha
    · exact hk
    · exact hcand a ha
  rw [List.length_cons] at hmore
  omega

theorem mem_of_dueNoLater {q : Queue ι π} {batch k : Nat} {picks : List Nat} (htakes : q.takes batch picks = true)
    (hk : k ∈ q.candidates) (hfew : q.dueNoLater k < batch) : k ∈ picks := by
  by_contra hout
  have hfull := length_of_left_out htakes hk hout
  obtain ⟨hnodup,hcand,_,horder⟩ := takes_iff.mp htakes
  have hle : picks.length ≤ q.dueNoLater k := by
    refine length_le_countP hnodup fun a ha => ⟨hcand a ha,?_⟩
    have hne : a ≠ k := by
      rintro rfl
      exact hout ha
    simp [hne, horder a ha k hk hout]
  omega

theorem mem_favouring {q : Queue ι π} {batch k : Nat} (hk : k ∈ q.candidates) (hfew : q.dueBefore k < batch) :
    k ∈ q.favouring k batch := by
  by_contra hout
  have htakes := q.takes_favouring k batch
  have hfull := length_of_left_out htakes hk hout
  obtain ⟨hnodup,hcand,_⟩ := takes_iff.mp htakes
  have hle : (q.favouring k batch).length ≤ q.dueBefore k := by
    refine length_le_countP hnodup fun a ha => ⟨hcand a ha,?_⟩
    have hne : a ≠ k := by
      rintro rfl
      exact hout ha
    have hrank := ranks_of_favouring ha hk hout
    simp only [ranks, hne, ne_eq, not_true_eq_false, or_self, and_false, or_false, decide_eq_true_eq] at hrank
    simp [hne, hrank]
  omega

/-- A holder settles within the lease of its claim, or never. -/
def settlesInTime (q : Queue ι π) (a : QueueAction ι π) : Prop := ∀ h ∈ q.settler a, q.clock ≤ h.now + leaseMs

instance (q : Queue ι π) (a : QueueAction ι π) : Decidable (q.settlesInTime a) :=
  inferInstanceAs (Decidable (∀ h ∈ q.settler a, q.clock ≤ h.now + leaseMs))

variable [DecidableEq ι]

/-- A settle in time comes from the job's latest claim. -/
theorem settlesLatest_of_inTime {q : Queue ι π} (ho : q.Orderly) {a : QueueAction ι π} (ht : q.settlesInTime a) :
    q.settlesLatest a := by
  intro h hh job hjob
  obtain ⟨n,_,hn⟩ := Option.bind_eq_some_iff.mp hh
  have hfits := ho.fits (List.mem_of_getElem? hn) rfl hjob
  rcases Nat.lt_or_eq_of_le hfits.attempts_le with hlt | heq
  · have := hfits.overdue hlt
    have := ht h hh
    omega
  · exact heq.symm

/-- Job `k` is not lost. While a claim has it locked, the claim's commit returns it. Otherwise,
from its instant on, a claim may return it unless too many jobs are due before it, and every
claim returns it unless too many jobs are due no later. -/
structure Served (q : Queue ι π) (k : Nat) (job : Job π) : Prop where
  locked : ∀ j v, q.table.pending k = some (j, v) →
    ∃ q' now, q.step (.commit j) = some q' ∧ q'.trail k = q.trail k ++ [.returned now]
  claimable : q.table.pending k = none → ∀ now, q.clock ≤ now → job.dueAt ≤ now →
    ∃ p, q.step (.tick now) = some p ∧ ∀ i limit, p.claiming i = none →
      (p.dueBefore k < batchSize limit → ∃ picks p' p'', p.step (.claim i limit picks) = some p' ∧
        p'.step (.commit i) = some p'' ∧ p''.trail k = q.trail k ++ [.returned now]) ∧
      (p.dueNoLater k < batchSize limit → ∀ picks p', p.step (.claim i limit picks) = some p' →
        ∃ p'', p'.step (.commit i) = some p'' ∧ p''.trail k = q.trail k ++ [.returned now])

/-- The law of the queue. Claims that overlap return disjoint batches. A job is returned again
only after it failed and its instant came, or after the lease of its last return ran out. A
claim returns what it picked, at most as many jobs as its clamped limit. -/
structure Lawful (q : Queue ι π) : Prop where
  disjoint : ∀ i j now now' picks picks', i ≠ j → q.claiming i = some (now, picks) →
    q.claiming j = some (now', picks') → picks.Disjoint picks'
  spaced : ∀ k l₁ l₂ l₃ now₁ now₂, q.trail k = l₁ ++ JobEvent.returned now₁ :: l₂ ++ JobEvent.returned now₂ :: l₃ →
    (∀ e ∈ l₂, e.isReturned = false) →
    (∃ runAfter, .failed runAfter ∈ l₂ ∧ runAfter ≤ now₂) ∨ now₁ + leaseMs < now₂
  locked : ∀ k job, q.table.committed k = some job → (job.lockedAt ≠ none ↔ job.status = .active)
  counted : ∀ k job, q.table.committed k = some job → job.attempts = (q.trail k).countP JobEvent.isReturned
  served : ∀ k job, q.table.committed k = some job → job.status ≠ .done → job.status ≠ .dead → q.Served k job
  bounded : ∀ i limit picks q', q.step (.claim i limit picks) = some q' →
    picks.length ≤ batchSize limit ∧ ∃ now, q'.claiming i = some (now, picks)
  returned : ∀ i now picks, q.claiming i = some (now, picks) → ∃ q' batch, q.step (.commit i) = some q' ∧
    q'.hands = q.hands ++ batch ∧ batch.map (·.job.id) = picks

namespace Orderly
variable {q : Queue ι π}

private theorem claim_commit (q : Queue ι π) {i : ι} {limit : JsNumber} {picks : List Nat}
    (hidle : q.claiming i = none) (htakes : q.takes (batchSize limit) picks = true) {k : Nat} (hk : k ∈ picks) :
    q.step (.claim i limit picks) = some (q.leased i picks) ∧
    ∃ q'', (q.leased i picks).step (.commit i) = some q'' ∧ q''.trail k = q.trail k ++ [.returned q.clock] := by
  refine ⟨by simp [Queue.step, hidle, htakes],(q.leased i picks).handedOut i q.clock picks,?_,?_⟩
  · simp [Queue.step, Queue.leased]
  · simp [handedOut, hk, Queue.leased]

theorem served (ho : q.Orderly) {k : Nat} {job : Job π} (hjob : q.table.committed k = some job)
    (hterm : job.status ≠ .done ∧ job.status ≠ .dead) : q.Served k job where
  locked j v hp := by
    obtain ⟨now,picks,hopen,hk,_⟩ := ho.leased j k v ((Table.own_eq_some_iff _ _ _).mpr hp)
    exact ⟨q.handedOut j now picks,now,by simp [Queue.step, hopen],by simp [handedOut, hk]⟩
  claimable hfree now hnow hdue := by
    refine ⟨{ q with clock := now },by simp [Queue.step, hnow],fun i limit hidle => ?_⟩
    have hk : k ∈ Queue.candidates { q with clock := now } :=
      mem_candidates.mpr ⟨hfree,job,hjob,(ho.life k job hjob).isDue hterm hdue⟩
    constructor
    · intro hfew
      obtain ⟨hclaim,p'',hcommit,htrail⟩ :=
        claim_commit _ hidle (takes_favouring _ k (batchSize limit)) (mem_favouring hk hfew)
      exact ⟨_,_,p'',hclaim,hcommit,htrail⟩
    · intro hfew picks p' hp'
      cases turn_of_step hp' with
      | claim _ htakes => exact (claim_commit _ hidle htakes (mem_of_dueNoLater htakes hk hfew)).2
      | settle hplace _ _ _ => cases hplace

theorem lawful (ho : q.Orderly) : q.Lawful where
  disjoint i j now now' picks picks' hij hi hj := ho.disjoint hij hi hj
  spaced k l₁ l₂ l₃ now₁ now₂ htrail hnext := by
    cases hjob : q.table.committed k with
    | none =>
      rw [ho.unborn k hjob] at htrail
      simp at htrail
    | some job =>
      have hlife := ho.life k job hjob
      rw [htrail] at hlife
      exact hlife.spaced hnext
  locked k job hjob := (ho.life k job hjob).locked
  counted k job hjob := (ho.life k job hjob).attempts
  served k job hjob hdone hdead := ho.served hjob ⟨hdone,hdead⟩
  bounded i limit picks q' hq' := by
    cases turn_of_step hq' with
    | claim _ htakes =>
      obtain ⟨_,_,hlen,_⟩ := takes_iff.mp htakes
      exact ⟨by omega,q.clock,by simp [Queue.leased]⟩
    | settle hplace _ _ _ => cases hplace
  returned i now picks hopen :=
    ⟨q.handedOut i now picks,q.batch i now picks,by simp [Queue.step, hopen],rfl,ho.batch_ids hopen⟩

end Orderly

/-- Any interleaving of any number of drainers, crashes included, in which every settle comes
within the lease of its claim. -/
theorem lawful_of_settlesInTime {acts : List (QueueAction ι π)} {q : Queue ι π}
    (hr : Run step settlesInTime initial acts q) :
    q.Lawful ∧ ∀ limit, 1 ≤ batchSize limit ∧ batchSize limit ≤ 1000 ∧
      ∀ x, limit = .finite x → 1 ≤ trunc x → trunc x ≤ 1000 → (batchSize limit : Int) = trunc x := by
  have ho : q.Orderly :=
    hr.invariant orderly_initial fun _ _ _ ho ht hs => ho.step (settlesLatest_of_inTime ho ht) hs
  exact ⟨ho.lawful,batchSize_clamped⟩

def inboundEvent (runAfter : Option Int) : EnqueueInput Unit := ⟨"inbound.event", (), runAfter, none⟩

/-- One job fails and is retried, one is left by a drainer that died, a third is completed. -/
def busyDay : List (QueueAction Nat Unit) :=
  [.enqueue 7 (inboundEvent none), .enqueue 7 (inboundEvent none), .claim 0 (.finite 1) [1],
   .claim 1 (.finite 20) [0], .commit 1, .commit 0, .tick 200, .fail 0 "timeout" (1 / 2), .crash 0,
   .enqueue 8 (inboundEvent (some 300)), .tick 5000, .claim 2 .nan [2, 0], .commit 2, .tick 300001, .complete 0,
   .claim 0 (.finite 20) [1], .commit 0]

theorem lawful_of_busyDay : ∃ q : Queue Nat Unit, Run step settlesInTime initial busyDay q ∧ q.Lawful ∧
    q.trail 0 = [.returned 0, .failed 5000, .returned 5000] ∧ q.trail 1 = [.returned 0, .returned 300001] ∧
    q.trail 2 = [.returned 5000, .completed] := by
  have hexec : (exec step settlesInTime initial busyDay).any fun q =>
      q.trail 0 = [.returned 0, .failed 5000, .returned 5000] ∧ q.trail 1 = [.returned 0, .returned 300001] ∧
      q.trail 2 = [.returned 5000, .completed] := by
    decide +kernel
  obtain ⟨q,hq,hend⟩ := exec_any hexec
  exact ⟨q,hq,(lawful_of_settlesInTime hq).1,of_decide_eq_true hend⟩

end Queue
end Nivara.Scheduler
