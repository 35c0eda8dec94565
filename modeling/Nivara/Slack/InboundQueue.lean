import Nivara.Idempotency.AtMostOnce
import Nivara.Slack.Inbound

/-! An acknowledged event is queued, once. A claim that is not fresh is acked at once, whatever
becomes of the delivery that holds the key; so an event is lost when that delivery ends without its
job. To the record, a delivery is a request whose effect is the job. -/
namespace Nivara.Slack
open Transactions Idempotency

def Accepting.stage : Accepting → Stage Unit
  | .claiming => .claiming
  | .queueing => .handling
  | .completing => .completing ⟨200, none⟩
  | .releasing => .releasing
  | .acking => .finished
  | .ended => .finished

@[simp] theorem Accepting.stage_call (stage : Accepting) (i : Nat) : stage.stage.call i = stage.call i := by
  cases stage <;> rfl

namespace Intake
variable {p p' : Intake} {a : IntakeAction} {i : Nat} {c : CallId}

def pipeline (p : Intake) : Pipeline Unit := ⟨p.store, fun i => (p.deliveries[i]?).map Accepting.stage, p.jobs, []⟩

private def view : IntakeAction → PipelineAction Unit
  | .advance c => .advance c
  | _ => .tick 0

private theorem requests_set {stage : Accepting} {old : Accepting} (h : p.deliveries[i]? = some old) :
    (fun j => ((p.deliveries.set i stage)[j]?).map Accepting.stage) =
      Function.update p.pipeline.requests i (some stage.stage) := by
  funext j
  by_cases hji : j = i
  · subst hji
    simp [List.getElem?_set_self (List.getElem?_eq_some_iff.mp h).1]
  · simp [pipeline, hji, List.getElem?_set_ne (Ne.symm hji)]

private theorem requests_append (p : Intake) :
    (fun j => ((p.deliveries ++ [.claiming])[j]?).map Accepting.stage) =
      Function.update p.pipeline.requests p.deliveries.length (some .claiming) := by
  funext j
  by_cases hj : j = p.deliveries.length
  · subst hj
    simp [Accepting.stage]
  · rcases Nat.lt_or_gt_of_ne hj with hlt | hgt
    · simp [pipeline, hj, List.getElem?_append_left hlt]
    · have hne : j - p.deliveries.length ≠ 0 := by omega
      simp [pipeline, hj, hne, List.getElem?_eq_none (Nat.le_of_lt hgt), List.getElem?_append_right (Nat.le_of_lt hgt)]

private theorem delivery_of_call (h : p.pipeline.CallsFit) {call : Call Unit} (hc : p.store.calls c = some call)
    (hi : c.request = some i) : ∃ stage, p.deliveries[i]? = some stage ∧ stage.call i = some c := by
  obtain ⟨stage,hstage,hcall⟩ := (h c call hc).1 i hi
  obtain ⟨d,hd,rfl⟩ := Option.map_eq_some_iff.mp hstage
  exact ⟨d,hd,by simpa using hcall⟩

private theorem requests_eq {stage : Accepting} (h : p.deliveries[i]? = some stage) :
    p.pipeline.requests i = some stage.stage := by
  simp [pipeline, h]

private theorem rank_eq {stage : Accepting} (h : p.deliveries[i]? = some stage) : p.pipeline.rank i = stage.stage.rank := by
  simp [Pipeline.rank, requests_eq h]

private theorem callEnds_returned (h : p.pipeline.CallsFit) {call : Call Unit} (hc : p.store.calls c = some call)
    (store : Store CallId Unit) (hcalls : store.calls = Function.update p.store.calls c none) (o : Outcome Unit) :
    Pipeline.CallEnds p.pipeline ({ p with store := store }.returned c o).pipeline c (o = .fresh) ∧
      ({ p with store := store }.returned c o).store = store := by
  have hold : ∀ c' call', store.calls c' = some call' → c' ≠ c ∧ p.store.calls c' = some call' := by
    intro c' call' hc'
    rw [hcalls] at hc'
    exact Pipeline.calls_closed hc'
  have hends : ∀ {i next}, c.request = some i → next.stage = .finished →
      Pipeline.CallEnds p.pipeline (enter { p with store := store } i next).pipeline c (o = .fresh) := by
    intro i next hi hnext
    obtain ⟨stage,hstage,_⟩ := delivery_of_call h hc hi
    exact Pipeline.callEnds_enter h hc hi .finished (hnext ▸ requests_set hstage) rfl
      (fun c' call' hc' => .inr (hold c' call' hc')) (Pipeline.rank_le _ i) (by simp [Stage.rank])
  cases c with
  | claim i =>
    obtain ⟨stage,hstage,hcall⟩ := delivery_of_call h hc (i := i) rfl
    cases o with
    | fresh =>
      refine ⟨Pipeline.callEnds_enter h hc rfl .handling (requests_set hstage) rfl
        (fun c' call' hc' => .inr (hold c' call' hc')) ?_ fun _ => .inr ⟨rfl,rfl⟩,rfl⟩
      rw [rank_eq hstage]
      cases stage <;> cases hcall
      simp [Accepting.stage, Stage.rank]
    | _ => exact ⟨hends rfl rfl,rfl⟩
  | complete i => exact ⟨hends rfl rfl,rfl⟩
  | release i => exact ⟨hends rfl rfl,rfl⟩
  | sweep n => exact ⟨Pipeline.callEnds_sweep h rfl rfl fun c' call' hc' => (hold c' call' hc').2,rfl⟩

private theorem motion_of_advance (ht : Tracked p.store) (h : p.pipeline.CallsFit) (hs : p.step (.advance c) = some p') :
    Tracked p'.store ∧ p'.pipeline.CallsFit ∧ Pipeline.Motion p.pipeline p'.pipeline (.advance c) := by
  obtain ⟨store,hstore,hp'⟩ := Option.map_eq_some_iff.mp hs
  obtain ⟨call,hc,hadv⟩ := Option.bind_eq_some_iff.mp hstore
  have hmoves := moves_of_advance (ht.timely c call hc) hadv
  rw [hc] at hp'
  by_cases hcommit : ∃ o, call = .commit o
  · obtain ⟨o,rfl⟩ := hcommit
    cases hadv
    obtain ⟨hend,hst⟩ := callEnds_returned h hc { p.store.commit c with answers := p.store.answers ++ [(c, o)] }
      (commit_calls p.store c) o
    subst hp'
    refine ⟨by rw [hst]; exact tracked_step ht hstore,hend.fits,?_⟩
    refine Pipeline.motion_commit hend ?_ (congrArg Store.record hst :) (congrArg Store.pending hst :)
      (congrArg Store.history hst :)
    rintro rfl
    exact Pipeline.promised_fresh ht hc
  · have hp : p' = { p with store := store } := by
      rw [← hp']
      cases call <;> first | rfl | exact absurd ⟨_,rfl⟩ hcommit
    subst hp
    obtain ⟨hfit,hmotion⟩ := Pipeline.motion_moves h hc (fun o ho => hcommit ⟨o,ho⟩) hmoves
    exact ⟨tracked_step ht hstore,hfit,hmotion⟩

private theorem motion_of_fail (ht : Tracked p.store) (h : p.pipeline.CallsFit) (hs : p.step (.fail c) = some p') :
    Tracked p'.store ∧ p'.pipeline.CallsFit ∧ Pipeline.Motion p.pipeline p'.pipeline (view (.fail c)) := by
  obtain ⟨store,hstore,rfl⟩ := Option.map_eq_some_iff.mp hs
  obtain ⟨call,hc,rfl⟩ := Option.map_eq_some_iff.mp hstore
  have ht' := tracked_step ht hstore
  cases c with
  | sweep n =>
    have hend : Pipeline.CallEnds p.pipeline (pipeline { p with store := p.store.rollback (.sweep n) }) (.sweep n) False :=
      Pipeline.callEnds_sweep h rfl rfl fun c' call' hc' => (Pipeline.calls_closed hc').2
    exact ⟨ht',hend.fits,Pipeline.motion_rollback hend rfl rfl rfl⟩
  | claim i =>
    obtain ⟨stage,hstage,_⟩ := delivery_of_call h hc (i := i) rfl
    exact ⟨ht',Pipeline.motion_abandoned h hc rfl rfl (requests_set hstage) rfl⟩
  | complete i =>
    obtain ⟨stage,hstage,_⟩ := delivery_of_call h hc (i := i) rfl
    exact ⟨ht',Pipeline.motion_abandoned h hc rfl rfl (requests_set hstage) rfl⟩
  | release i =>
    obtain ⟨stage,hstage,_⟩ := delivery_of_call h hc (i := i) rfl
    exact ⟨ht',Pipeline.motion_abandoned h hc rfl rfl (requests_set hstage) rfl⟩

/-- To the record, every step is a motion of the pipeline. -/
theorem motion_of_step (ht : Tracked p.store) (h : p.pipeline.CallsFit) (hs : p.step a = some p') :
    Tracked p'.store ∧ p'.pipeline.CallsFit ∧ Pipeline.Motion p.pipeline p'.pipeline (view a) := by
  cases a with
  | tick now =>
    obtain ⟨store,hstore,rfl⟩ := Option.map_eq_some_iff.mp hs
    exact ⟨tracked_step ht hstore,Pipeline.motion_of_tick h hstore⟩
  | arrive =>
    obtain ⟨store,hstore,rfl⟩ := Option.map_eq_some_iff.mp hs
    have hnone : p.pipeline.requests p.deliveries.length = none := by simp [pipeline]
    refine ⟨tracked_step ht hstore,Pipeline.motion_begin h .claiming hstore rfl (fun k hk => by cases hk; rfl) ?_ rfl
      (requests_append p) ?_ (by simp [Stage.rank]) (.inl rfl)⟩
    · intro old hold
      cases hnone.symm.trans hold
    · simp [Pipeline.rank, hnone]
  | sweep n now =>
    obtain ⟨store,hstore,rfl⟩ := Option.map_eq_some_iff.mp hs
    exact ⟨tracked_step ht hstore,Pipeline.motion_of_sweep h hstore⟩
  | advance c => exact motion_of_advance ht h hs
  | fail c => exact motion_of_fail ht h hs
  | enqueue i =>
    simp only [step] at hs
    split at hs
    · rename_i hstage
      have hrank : p.pipeline.rank i = 2 := rank_eq hstage
      obtain ⟨store,hstore,rfl⟩ := Option.map_eq_some_iff.mp hs
      refine ⟨tracked_step ht hstore,Pipeline.motion_begin h (Accepting.stage .completing) hstore rfl
        (fun k hk => by cases hk; rfl) ?_ rfl (requests_set hstage) ?_ ?_ (.inr ⟨i,hrank,?_,rfl⟩)⟩
      · intro old hold
        cases (requests_eq hstage).symm.trans hold
        rfl
      · simp [hrank, Accepting.stage, Stage.rank]
      · simp [hrank]
      · simp [Pipeline.rank, pipeline, enter, Accepting.stage, Stage.rank, (List.getElem?_eq_some_iff.mp hstage).1]
    · cases hs
  | throw i =>
    simp only [step] at hs
    split at hs
    · rename_i hstage
      have hrank : p.pipeline.rank i = 2 := rank_eq hstage
      obtain ⟨store,hstore,rfl⟩ := Option.map_eq_some_iff.mp hs
      refine ⟨tracked_step ht hstore,Pipeline.motion_begin h .releasing hstore rfl
        (fun k hk => by cases hk; rfl) ?_ rfl (requests_set hstage) ?_ ?_ (.inl rfl)⟩
      · intro old hold
        cases (requests_eq hstage).symm.trans hold
        rfl
      · simp [hrank, Stage.rank]
      · simp [hrank]
    · cases hs
  | answer i =>
    simp only [step] at hs
    split at hs
    · rename_i hstage
      cases hs
      exact ⟨ht,Pipeline.motion_stopped h (requests_eq hstage) rfl rfl
        (requests_set hstage) rfl⟩
    · cases hs
  | crash i =>
    simp only [step] at hs
    split at hs
    · cases hs
    · rename_i stage hstage
      split at hs
      · rename_i c hcall
        obtain ⟨store,hstore,rfl⟩ := Option.map_eq_some_iff.mp hs
        obtain ⟨call,hc,rfl⟩ := Option.map_eq_some_iff.mp hstore
        exact ⟨tracked_step ht hstore,Pipeline.motion_abandoned h hc
          (Pipeline.call_request ((stage.stage_call i).trans hcall)) rfl (requests_set hstage) rfl⟩
      · rename_i hcall
        cases hs
        exact ⟨ht,Pipeline.motion_stopped h (requests_eq hstage) ((stage.stage_call i).trans hcall) rfl
          (requests_set hstage) rfl⟩

def Denied (p : Intake) (i : Nat) : Prop := ∃ o, p.store.calls (.claim i) = some (.commit o) ∧ o ≠ .fresh

/-- Everything a step can do to the deliveries, the jobs and the acks. -/
inductive Passes (p p' : Intake) : IntakeAction → Prop
  | stays {act} (hd : p'.deliveries = p.deliveries ∨ p'.deliveries = p.deliveries ++ [.claiming]) (hj : p'.jobs = p.jobs)
      (ha : p'.acks = p.acks) (hden : ∀ j, p'.Denied j → p.Denied j) : Passes p p' act
  /-- A claim reads the record, or finds none in its last attempt. -/
  | reads {k requestHash remaining} (hcall : p.store.calls (.claim k) = some (.read requestHash remaining))
      (hlast : p.store.record = none → remaining = 0) (hd : p'.deliveries = p.deliveries) (hj : p'.jobs = p.jobs)
      (ha : p'.acks = p.acks) : Passes p p' (.advance (.claim k))
  | claims {act k} (hold : p.deliveries[k]? = some .claiming) (hd : p'.deliveries = p.deliveries.set k .queueing)
      (hj : p'.jobs = p.jobs) : Passes p p' act
  | refused {act k} (hold : p.deliveries[k]? = some .claiming) (hden : p.Denied k)
      (hd : p'.deliveries = p.deliveries.set k .acking) (hj : p'.jobs = p.jobs) : Passes p p' act
  | queued {k w} (hold : p.deliveries[k]? = some .queueing) (hd : p'.deliveries = p.deliveries.set k .completing)
      (hj : p'.jobs = p.jobs ++ [(k, w)]) : Passes p p' (.enqueue k)
  | thrown {k} (hold : p.deliveries[k]? = some .queueing) (hd : p'.deliveries = p.deliveries.set k .releasing)
      (hj : p'.jobs = p.jobs) (ha : p'.acks = p.acks) (hden : ∀ j, p'.Denied j → p.Denied j) : Passes p p' (.throw k)
  | completed {act k} (hold : p.deliveries[k]? = some .completing) (hd : p'.deliveries = p.deliveries.set k .acking)
      (hj : p'.jobs = p.jobs) : Passes p p' act
  | answered {act k} (hold : p.deliveries[k]? = some .acking) (hd : p'.deliveries = p.deliveries.set k .ended)
      (hj : p'.jobs = p.jobs) : Passes p p' act
  | ended {act k old} (hold : p.deliveries[k]? = some old) (hcrash : old = .queueing → act = .crash k)
      (hd : p'.deliveries = p.deliveries.set k .ended) (hj : p'.jobs = p.jobs) (ha : p'.acks = p.acks)
      (hden : ∀ j, p'.Denied j → p.Denied j) : Passes p p' act

/-- A call that starts or ends leaves no claim denied that was not. -/
private theorem denied_of_update {next : Option (Call Unit)} (hcalls : p'.store.calls = Function.update p.store.calls c next)
    (hnext : ∀ o, next ≠ some (.commit o)) (j : Nat) (h : p'.Denied j) : p.Denied j := by
  obtain ⟨o,ho,hne⟩ := h
  rw [hcalls] at ho
  by_cases hjc : CallId.claim j = c
  · subst hjc
    rw [Function.update_self] at ho
    exact absurd ho (hnext o)
  · rw [Function.update_of_ne hjc] at ho
    exact ⟨o,ho,hne⟩

private theorem denied_of_advance {s s' : Store CallId Unit} {call : Call Unit} {o : Outcome Unit}
    (hkind : call.kind = some .claim) (h : s.advance c call = some s') (hc : s'.calls c = some (.commit o)) (hne : o ≠ .fresh) :
    ∃ requestHash remaining, call = .read requestHash remaining ∧ (s.record = none → remaining = 0) := by
  have hgoto : ∀ {next : Call Unit}, Function.update s.calls c (some next) c = some (.commit o) → next = .commit o := by
    intro next hn
    rw [Function.update_self] at hn
    exact Option.some.inj hn
  have hlock : ∀ {w}, s.tryLock c w .fresh = some s' → False := by
    intro w hl
    unfold Store.tryLock at hl
    split at hl
    · cases hl
      cases hgoto hc
      exact hne rfl
    · cases hl
  cases call with
  | claim requestHash remaining =>
    cases h
    cases hgoto hc
  | insert requestHash remaining now =>
    simp only [Store.advance] at h
    split at h
    · exact (hlock h).elim
    · split at h
      · cases h
      · cases h
        cases hgoto hc
  | contend requestHash remaining =>
    cases h
    cases hgoto hc
  | reclaim requestHash remaining now =>
    simp only [Store.advance] at h
    split at h
    · cases h
      cases hgoto hc
    · split at h
      · exact (hlock h).elim
      · cases h
        cases hgoto hc
  | read requestHash remaining =>
    refine ⟨requestHash,remaining,rfl,fun hnone => ?_⟩
    simp only [Store.advance, hnone] at h
    split at h
    · cases h
      cases hgoto hc
    · rfl
  | complete response => cases hkind
  | release => cases hkind
  | sweep now => cases hkind
  | commit o => cases hkind

private theorem calls_of_advance {s s' : Store CallId Unit} {call : Call Unit} (ht : call.Timely s.clock)
    (h : s.advance c call = some s') : ∃ next, s'.calls = Function.update s.calls c next := by
  cases moves_of_advance ht h with
  | enter => exact ⟨_,rfl⟩
  | pass => exact ⟨_,rfl⟩
  | locks => exact ⟨_,rfl⟩
  | reads => exact ⟨_,rfl⟩
  | commits => exact ⟨none,commit_calls s c⟩

/-- A call has answered: what becomes of the delivery that waits for it. -/
private theorem passes_of_return (h : p.pipeline.CallsFit) {o : Outcome Unit} (hc : p.store.calls c = some (.commit o))
    (store : Store CallId Unit) (hcalls : store.calls = Function.update p.store.calls c none) (act : IntakeAction) :
    Passes p ({ p with store := store }.returned c o) act := by
  cases c with
  | claim i =>
    obtain ⟨stage,hstage,hcall⟩ := delivery_of_call h hc (i := i) rfl
    cases stage <;> cases hcall
    cases o with
    | fresh => exact .claims hstage rfl rfl
    | _ => exact .refused hstage ⟨_,hc,by rintro ⟨⟩⟩ rfl rfl
  | complete i =>
    obtain ⟨stage,hstage,hcall⟩ := delivery_of_call h hc (i := i) rfl
    cases stage <;> cases hcall
    exact .completed hstage rfl rfl
  | release i =>
    obtain ⟨stage,hstage,hcall⟩ := delivery_of_call h hc (i := i) rfl
    cases stage <;> cases hcall
    exact .ended hstage (by rintro ⟨⟩) rfl rfl rfl (denied_of_update hcalls (by rintro _ ⟨⟩))
  | sweep n => exact .stays (.inl rfl) rfl rfl (denied_of_update hcalls (by rintro _ ⟨⟩))

private theorem passes_of_advance (ht : Tracked p.store) (h : p.pipeline.CallsFit) (hs : p.step (.advance c) = some p') :
    Passes p p' (.advance c) := by
  obtain ⟨store,hstore,hp'⟩ := Option.map_eq_some_iff.mp hs
  obtain ⟨call,hc,hadv⟩ := Option.bind_eq_some_iff.mp hstore
  rw [hc] at hp'
  by_cases hcommit : ∃ o, call = .commit o
  · obtain ⟨o,rfl⟩ := hcommit
    cases hadv
    rw [← hp']
    exact passes_of_return h hc { p.store.commit c with answers := p.store.answers ++ [(c, o)] } (commit_calls p.store c) _
  · have hp : p' = { p with store := store } := by
      rw [← hp']
      cases call <;> first | rfl | exact absurd ⟨_,rfl⟩ hcommit
    subst hp
    obtain ⟨next,hcalls⟩ := calls_of_advance (ht.timely c call hc) hadv
    by_cases hden : ∃ i o, c = .claim i ∧ store.calls c = some (.commit o) ∧ o ≠ .fresh
    · obtain ⟨i,o,rfl,ho,hne⟩ := hden
      have hkind : call.kind = some .claim := by
        cases hk : call.kind with
        | none =>
          cases call with
          | commit o => exact absurd ⟨o,rfl⟩ hcommit
          | _ => cases hk
        | some k =>
          have hclaim : CallId.kind (.claim i) = k := (h _ call hc).2 k hk
          rw [← hclaim]
          rfl
      obtain ⟨requestHash,remaining,rfl,hlast⟩ := denied_of_advance hkind hadv ho hne
      exact .reads hc hlast rfl rfl rfl
    · refine .stays (.inl rfl) rfl rfl fun j hj => ?_
      obtain ⟨o,ho,hne⟩ := hj
      by_cases hjc : CallId.claim j = c
      · exact absurd ⟨j,o,hjc.symm,hjc ▸ ho,hne⟩ hden
      · refine ⟨o,?_,hne⟩
        simpa [hcalls, hjc] using ho

theorem passes_of_step (ht : Tracked p.store) (h : p.pipeline.CallsFit) (hs : p.step a = some p') : Passes p p' a := by
  cases a with
  | tick now =>
    obtain ⟨store,hstore,rfl⟩ := Option.map_eq_some_iff.mp hs
    simp only [Store.step] at hstore
    split at hstore
    · cases hstore
      exact .stays (.inl rfl) rfl rfl fun _ hj => hj
    · cases hstore
  | arrive =>
    obtain ⟨store,hstore,rfl⟩ := Option.map_eq_some_iff.mp hs
    obtain ⟨_,rfl⟩ := Pipeline.begin_some hstore
    exact .stays (.inr rfl) rfl rfl (denied_of_update rfl (by rintro _ ⟨⟩))
  | sweep n now =>
    obtain ⟨store,hstore,rfl⟩ := Option.map_eq_some_iff.mp hs
    obtain ⟨_,rfl⟩ := Pipeline.begin_some hstore
    exact .stays (.inl rfl) rfl rfl (denied_of_update rfl (by rintro _ ⟨⟩))
  | advance c => exact passes_of_advance ht h hs
  | fail c =>
    obtain ⟨store,hstore,rfl⟩ := Option.map_eq_some_iff.mp hs
    obtain ⟨call,hc,rfl⟩ := Option.map_eq_some_iff.mp hstore
    have hden : ∀ p' : Intake, p'.store = p.store.rollback c → ∀ j, p'.Denied j → p.Denied j := by
      intro p' hp'
      exact denied_of_update (by rw [hp']; rfl) (by rintro _ ⟨⟩)
    have hended : ∀ {i}, c.request = some i → Passes p (enter { p with store := p.store.rollback c } i .ended) (.fail c) := by
      intro i hi
      obtain ⟨stage,hstage,hcall⟩ := delivery_of_call h hc hi
      refine .ended hstage ?_ rfl rfl rfl (hden _ rfl)
      rintro rfl
      cases hcall
    cases c with
    | sweep n => exact .stays (.inl rfl) rfl rfl (hden _ rfl)
    | claim i => exact hended rfl
    | complete i => exact hended rfl
    | release i => exact hended rfl
  | enqueue i =>
    simp only [step] at hs
    split at hs
    · rename_i hstage
      obtain ⟨store,hstore,rfl⟩ := Option.map_eq_some_iff.mp hs
      exact .queued hstage rfl rfl
    · cases hs
  | throw i =>
    simp only [step] at hs
    split at hs
    · rename_i hstage
      obtain ⟨store,hstore,rfl⟩ := Option.map_eq_some_iff.mp hs
      obtain ⟨_,rfl⟩ := Pipeline.begin_some hstore
      exact .thrown hstage rfl rfl rfl (denied_of_update rfl (by rintro _ ⟨⟩))
    · cases hs
  | answer i =>
    simp only [step] at hs
    split at hs
    · rename_i hstage
      cases hs
      exact .answered hstage rfl rfl
    · cases hs
  | crash i =>
    simp only [step] at hs
    split at hs
    · cases hs
    · rename_i stage hstage
      split at hs
      · obtain ⟨store,hstore,rfl⟩ := Option.map_eq_some_iff.mp hs
        obtain ⟨call,hc,rfl⟩ := Option.map_eq_some_iff.mp hstore
        exact .ended hstage (fun _ => rfl) rfl rfl rfl (denied_of_update rfl (by rintro _ ⟨⟩))
      · cases hs
        exact .ended hstage (fun _ => rfl) rfl rfl rfl fun _ hj => hj

def told (p : Intake) : Bool :=
  p.acks ≠ [] ∨ .acking ∈ p.deliveries ∨ ∃ i < p.deliveries.length, (p.store.calls (.claim i)).any fun
    | .commit o => o ≠ .fresh
    | _ => false

def isInHand (p : Intake) : Bool :=
  p.jobs ≠ [] ∨ p.store.record.any fun r =>
    ∃ i < p.deliveries.length, r.claimant = .claim i ∧ p.deliveries[i]? = some .queueing

/-- No claim is refused while the event is in nobody's hands, and while none is queued no delivery lets go
of an event that others have been told about. -/
def keepsWord (p : Intake) : IntakeAction → Bool
  | .advance c =>
    match p.store.calls c with
    | some (.read _ remaining) => p.isInHand ∨ (p.store.record.isNone ∧ remaining ≠ 0)
    | _ => true
  | .throw _ => p.jobs ≠ [] ∨ p.told = false
  | .crash i => p.deliveries[i]? ≠ some .queueing ∨ p.jobs ≠ [] ∨ p.told = false
  | _ => true

private theorem told_iff (h : p.pipeline.CallsFit) :
    p.told = true ↔ p.acks ≠ [] ∨ .acking ∈ p.deliveries ∨ ∃ i, p.Denied i := by
  simp only [told, decide_eq_true_eq]
  refine or_congr_right (or_congr_right ⟨?_,?_⟩)
  · rintro ⟨i,_,hany⟩
    obtain ⟨call,hc,hcall⟩ := (Option.any_eq_true _ _).mp hany
    cases call with
    | commit o => exact ⟨i,o,hc,of_decide_eq_true hcall⟩
    | _ => cases hcall
  · rintro ⟨i,o,hc,hne⟩
    obtain ⟨stage,hstage,_⟩ := delivery_of_call h hc (i := i) rfl
    exact ⟨i,(List.getElem?_eq_some_iff.mp hstage).1,(Option.any_eq_true _ _).mpr ⟨_,hc,decide_eq_true hne⟩⟩

private theorem mem_set_of_mem {l : List Accepting} {x old new : Accepting} (hx : x ∈ l) (hold : l[i]? = some old)
    (hne : old ≠ x) : x ∈ l.set i new := by
  obtain ⟨j,hj⟩ := List.mem_iff_getElem?.mp hx
  have hij : i ≠ j := by
    rintro rfl
    exact hne (Option.some.inj (hold.symm.trans hj))
  exact List.mem_iff_getElem?.mpr ⟨j,(List.getElem?_set_ne hij).trans hj⟩

structure Minded (p : Intake) : Prop where
  tracked : Tracked p.store
  fits : p.pipeline.CallsFit
  completing : .completing ∈ p.deliveries → p.jobs ≠ []
  owed : p.jobs = [] → p.told = true → .queueing ∈ p.deliveries

private theorem minded_initial : Minded initial where
  tracked := tracked_initial
  fits _ _ h := by cases h
  completing h := by cases h
  owed _ h := by simp [told, initial] at h

private theorem completing_of_passes (h : Minded p) (hp : Passes p p' a) : .completing ∈ p'.deliveries → p'.jobs ≠ [] := by
  have hset : ∀ {k new}, new ≠ .completing → p'.deliveries = p.deliveries.set k new → p'.jobs = p.jobs →
      .completing ∈ p'.deliveries → p'.jobs ≠ [] := by
    intro k new hne hd hj hmem
    rw [hj]
    rw [hd] at hmem
    rcases List.mem_or_eq_of_mem_set hmem with hmem | hmem
    · exact h.completing hmem
    · exact absurd hmem.symm hne
  cases hp with
  | stays hd hj _ _ =>
    intro hmem
    rw [hj]
    rcases hd with hd | hd
    · exact h.completing (hd ▸ hmem)
    · refine h.completing ?_
      simpa [hd] using hmem
  | reads _ _ hd hj _ =>
    intro hmem
    rw [hj]
    exact h.completing (hd ▸ hmem)
  | claims _ hd hj => exact hset (by rintro ⟨⟩) hd hj
  | refused _ _ hd hj => exact hset (by rintro ⟨⟩) hd hj
  | queued _ _ hj =>
    intro _
    simp [hj]
  | thrown _ hd hj _ _ => exact hset (by rintro ⟨⟩) hd hj
  | completed _ hd hj => exact hset (by rintro ⟨⟩) hd hj
  | answered _ hd hj => exact hset (by rintro ⟨⟩) hd hj
  | ended _ _ hd hj _ _ => exact hset (by rintro ⟨⟩) hd hj

/-- Whoever is told of the event after a step that denies no claim was told before, or has been answered. -/
private theorem told_of_told (h : p.pipeline.CallsFit) (h' : p'.pipeline.CallsFit) (ha : p'.acks = p.acks)
    (hd : .acking ∈ p'.deliveries → .acking ∈ p.deliveries) (hden : ∀ j, p'.Denied j → p.Denied j)
    (ht : p'.told = true) : p.told = true := by
  rw [told_iff h'] at ht
  refine (told_iff h).mpr ?_
  rcases ht with ht | ht | ⟨j,ht⟩
  · exact .inl (ha ▸ ht)
  · exact .inr (.inl (hd ht))
  · exact .inr (.inr ⟨j,hden j ht⟩)

private theorem owed_of_passes (h : Minded p) (h' : p'.pipeline.CallsFit) (hok : p.keepsWord a = true)
    (hp : Passes p p' a) (hjobs : p'.jobs = []) (ht : p'.told = true) : .queueing ∈ p'.deliveries := by
  have hacking : ∀ {k new}, new ≠ .acking → p'.deliveries = p.deliveries.set k new → .acking ∈ p'.deliveries →
      .acking ∈ p.deliveries := by
    intro k new hne hd hmem
    rw [hd] at hmem
    rcases List.mem_or_eq_of_mem_set hmem with hmem | hmem
    · exact hmem
    · exact absurd hmem.symm hne
  cases hp with
  | stays hd hj ha hden =>
    rcases hd with hd | hd
    · rw [hd]
      exact h.owed (hj ▸ hjobs) (told_of_told h.fits h' ha (fun hm => hd ▸ hm) hden ht)
    · rw [hd]
      refine List.mem_append_left _ (h.owed (hj ▸ hjobs) (told_of_told h.fits h' ha (fun hm => ?_) hden ht))
      simpa [hd] using hm
  | reads hcall hlast hd hj _ =>
    rw [hj] at hjobs
    simp only [keepsWord, hcall, isInHand, hjobs, ne_eq, not_true_eq_false, false_or, decide_eq_true_eq] at hok
    rcases hok with hok | ⟨hnone,hne⟩
    · obtain ⟨r,_,hr⟩ := (Option.any_eq_true _ _).mp hok
      obtain ⟨i,_,_,hi⟩ := of_decide_eq_true hr
      rw [hd]
      exact List.mem_of_getElem? hi
    · exact absurd (hlast (Option.isNone_iff_eq_none.mp hnone)) hne
  | claims hold hd _ =>
    rw [hd]
    exact List.mem_of_getElem? (List.getElem?_set_self (List.getElem?_eq_some_iff.mp hold).1)
  | refused hold hden hd hj =>
    rw [hd]
    exact mem_set_of_mem (h.owed (hj ▸ hjobs) ((told_iff h.fits).mpr (.inr (.inr ⟨_,hden⟩)))) hold (by rintro ⟨⟩)
  | queued _ _ hj => simp [hj] at hjobs
  | thrown hold hd hj ha hden =>
    have htold := told_of_told h.fits h' ha (hacking (by rintro ⟨⟩) hd) hden ht
    simp [keepsWord, htold, hj ▸ hjobs] at hok
  | completed hold _ hj => exact absurd (hj ▸ hjobs) (h.completing (List.mem_of_getElem? hold))
  | answered hold hd hj =>
    rw [hd]
    exact mem_set_of_mem (h.owed (hj ▸ hjobs) ((told_iff h.fits).mpr (.inr (.inl (List.mem_of_getElem? hold))))) hold
      (by rintro ⟨⟩)
  | @ended _ k old hold hcrash hd hj ha hden =>
    have htold := told_of_told h.fits h' ha (hacking (by rintro ⟨⟩) hd) hden ht
    rw [hd]
    refine mem_set_of_mem (h.owed (hj ▸ hjobs) htold) hold ?_
    rintro rfl
    rw [hcrash rfl] at hok
    simp [keepsWord, htold, hj ▸ hjobs, hold] at hok

private theorem minded_step (h : Minded p) (hok : p.keepsWord a = true) (hs : p.step a = some p') : Minded p' := by
  obtain ⟨ht,hfits,_⟩ := motion_of_step h.tracked h.fits hs
  have hp := passes_of_step h.tracked h.fits hs
  exact ⟨ht,hfits,completing_of_passes h hp,owed_of_passes h hfits hok hp⟩

/-- Once all deliveries have ended, an event that one of them acked is queued. -/
theorem queued_of_keepsWord {acts : List IntakeAction} (hr : Run step (fun p a => p.keepsWord a = true) initial acts p)
    (hacks : p.acks ≠ []) (hended : ∀ stage ∈ p.deliveries, stage = .ended) : p.jobs ≠ [] := by
  have h : Minded p := hr.invariant minded_initial fun _ _ _ h ha hs => minded_step h ha hs
  intro hjobs
  have hmem := h.owed hjobs ((told_iff h.fits).mpr (.inl hacks))
  cases hended _ hmem

def hasSettled (p : Intake) : CallId → Bool
  | .claim i => p.deliveries[i]? = some .acking ∨ p.deliveries[i]? = some .ended
  | _ => true

/-- The step does not take the record for its deadline from a delivery that has still to settle it. -/
def settlesBeforeLapse (p : Intake) : IntakeAction → Bool
  | .advance c => (p.store.calls c).all fun call => p.store.record.all fun old =>
      !call.evicts old || p.hasSettled old.claimant
  | _ => true

structure Windowed (p : Intake) : Prop where
  pipeline : p.pipeline.Windowed
  /-- A delivery that has queued its job does not give the key back. -/
  keeps : ∀ e ∈ p.jobs, p.deliveries[e.1]? ≠ some .releasing

private theorem isFinished_of_hasSettled (h : p.hasSettled c = true) : p.pipeline.isFinished c = true := by
  cases c with
  | claim i =>
    simp only [hasSettled, decide_eq_true_eq] at h
    simp only [Pipeline.isFinished, decide_eq_true_eq]
    rcases h with h | h
    · exact rank_eq h
    · exact rank_eq h
  | _ => rfl

private theorem settlesBeforeLapse_view (h : p.settlesBeforeLapse a = true) : p.pipeline.settlesBeforeLapse (view a) = true := by
  cases a with
  | advance c =>
    cases hc : p.store.calls c with
    | none => simp [view, Pipeline.settlesBeforeLapse, pipeline, hc]
    | some call =>
      cases hr : p.store.record with
      | none => simp [view, Pipeline.settlesBeforeLapse, pipeline, hc, hr]
      | some old =>
        have hset : call.evicts old = false ∨ p.hasSettled old.claimant = true := by
          simpa [settlesBeforeLapse, hc, hr] using h
        have hfin : call.evicts old = false ∨ p.pipeline.isFinished old.claimant = true :=
          hset.imp_right isFinished_of_hasSettled
        simpa [view, Pipeline.settlesBeforeLapse, pipeline, hc, hr] using hfin
  | _ => rfl

private theorem keepsEffect_view (h : Windowed p) (a : IntakeAction) : p.pipeline.keepsEffect (view a) = true := by
  cases a with
  | advance c =>
    cases c with
    | release i =>
      cases hc : p.store.calls (.release i) with
      | none => simp [view, Pipeline.keepsEffect, pipeline, hc]
      | some call =>
        obtain ⟨stage,hstage,hcall⟩ := delivery_of_call h.pipeline.guarded.fits hc (i := i) rfl
        cases stage <;> cases hcall
        have hnone : p.jobs.all (·.1 != i) = true := by
          refine List.all_eq_true.mpr fun e he => ?_
          simp only [bne_iff_ne, ne_eq]
          rintro rfl
          exact h.keeps e he hstage
        simp [view, Pipeline.keepsEffect, pipeline, hc, hnone]
    | _ => rfl
  | _ => rfl

private theorem keeps_of_passes (h : Windowed p) (hp : Passes p p' a) : ∀ e ∈ p'.jobs, p'.deliveries[e.1]? ≠ some .releasing := by
  have hset : ∀ {k new}, new ≠ .releasing → p.deliveries[k]? ≠ none → p'.deliveries = p.deliveries.set k new →
      ∀ e ∈ p.jobs, p'.deliveries[e.1]? ≠ some .releasing := by
    intro k new hne hk hd e he hrel
    rw [hd] at hrel
    by_cases hek : k = e.1
    · subst hek
      rw [List.getElem?_set_self (by simpa using hk)] at hrel
      exact hne (Option.some.inj hrel)
    · rw [List.getElem?_set_ne hek] at hrel
      exact h.keeps e he hrel
  cases hp with
  | stays hd hj _ _ =>
    rw [hj]
    intro e he hrel
    rcases hd with hd | hd
    · exact h.keeps e he (hd ▸ hrel)
    · rw [hd] at hrel
      rcases Nat.lt_or_ge e.1 p.deliveries.length with hlt | hge
      · rw [List.getElem?_append_left hlt] at hrel
        exact h.keeps e he hrel
      · rw [List.getElem?_append_right hge] at hrel
        cases List.mem_singleton.mp (List.mem_of_getElem? hrel)
  | reads _ _ hd hj _ =>
    rw [hj, hd]
    exact h.keeps
  | claims hold hd hj =>
    rw [hj]
    exact hset (by rintro ⟨⟩) (by simp [hold]) hd
  | refused hold _ hd hj =>
    rw [hj]
    exact hset (by rintro ⟨⟩) (by simp [hold]) hd
  | @queued k w hold hd hj =>
    rw [hj]
    intro e he
    rcases List.mem_append.mp he with he | he
    · exact hset (by rintro ⟨⟩) (by simp [hold]) hd e he
    · rw [List.mem_singleton.mp he, hd, List.getElem?_set_self (List.getElem?_eq_some_iff.mp hold).1]
      rintro ⟨⟩
  | @thrown k hold hd hj _ _ =>
    rw [hj]
    intro e he hrel
    by_cases hek : k = e.1
    · -- a delivery that is still to queue its job has none
      subst hek
      have hrank := h.pipeline.returned e he
      rw [rank_eq hold] at hrank
      exact absurd hrank (by decide)
    · rw [hd, List.getElem?_set_ne hek] at hrel
      exact h.keeps e he hrel
  | completed hold hd hj =>
    rw [hj]
    exact hset (by rintro ⟨⟩) (by simp [hold]) hd
  | answered hold hd hj =>
    rw [hj]
    exact hset (by rintro ⟨⟩) (by simp [hold]) hd
  | ended hold _ hd hj _ _ =>
    rw [hj]
    exact hset (by rintro ⟨⟩) (by simp [hold]) hd

private theorem windowed_step (h : Windowed p) (hok : p.settlesBeforeLapse a = true) (hs : p.step a = some p') : Windowed p' := by
  have hg := h.pipeline.guarded
  obtain ⟨ht,hfits,hm⟩ := motion_of_step hg.tracked hg.fits hs
  have hg' := Pipeline.guarded_of_motion hg (settlesBeforeLapse_view hok) ht hfits hm
  exact ⟨Pipeline.windowed_of_motion h.pipeline (keepsEffect_view h a) hg' hm,keeps_of_passes h (passes_of_step hg.tracked hg.fits hs)⟩

/-- At most one job is committed in each retention window of the record. -/
theorem once_of_settlesBeforeLapse {acts : List IntakeAction}
    (hr : Run step (fun p a => p.settlesBeforeLapse a = true) initial acts p) : (p.jobs.map Prod.snd).Nodup := by
  have h : Windowed p := by
    refine hr.invariant ⟨Pipeline.windowed_initial,?_⟩ fun _ _ _ h ha hs => windowed_step h ha hs
    rintro e ⟨⟩
  exact h.pipeline.once

/-- Every acked event is queued once all deliveries have ended, and none is queued twice in a retention
window of its record. -/
structure QueuedOnce (p : Intake) : Prop where
  queued : p.acks ≠ [] → (∀ stage ∈ p.deliveries, stage = .ended) → p.jobs ≠ []
  once : (p.jobs.map Prod.snd).Nodup

theorem queuedOnce_of_run {acts : List IntakeAction}
    (hr : Run step (fun p a => p.keepsWord a = true ∧ p.settlesBeforeLapse a = true) initial acts p) : QueuedOnce p :=
  ⟨queued_of_keepsWord (hr.mono fun _ _ h => h.1),once_of_settlesBeforeLapse (hr.mono fun _ _ h => h.2)⟩

/-- A redelivery comes while the first delivery is queueing, and a third one when it has failed to complete. -/
private def redelivered : List IntakeAction :=
  [.arrive, .advance (.claim 0), .advance (.claim 0), .advance (.claim 0),
   .arrive, .advance (.claim 1), .advance (.claim 1), .advance (.claim 1), .advance (.claim 1), .advance (.claim 1),
   .advance (.claim 1), .answer 1, .enqueue 0, .fail (.complete 0),
   .arrive, .advance (.claim 2), .advance (.claim 2), .advance (.claim 2), .advance (.claim 2), .advance (.claim 2),
   .advance (.claim 2), .answer 2]

theorem queuedOnce_of_redelivered : ∃ p, QueuedOnce p ∧ p.acks = [1, 2] ∧ p.jobs = [(0, 0)] := by
  have hrun : (exec step (fun p a => p.keepsWord a = true ∧ p.settlesBeforeLapse a = true) initial redelivered).any
      (fun p => p.acks = [1, 2] ∧ p.jobs = [(0, 0)]) = true := by
    decide +kernel
  obtain ⟨p,hp,hany⟩ := exec_any hrun
  exact ⟨p,queuedOnce_of_run hp,of_decide_eq_true hany⟩

private def orphaned : List IntakeAction :=
  [.arrive, .advance (.claim 0), .advance (.claim 0), .advance (.claim 0), .crash 0,
   .arrive, .advance (.claim 1), .advance (.claim 1), .advance (.claim 1), .advance (.claim 1), .advance (.claim 1),
   .advance (.claim 1), .answer 1]

/-- The redelivery is acked, nothing is left to run, and the event is not queued. -/
theorem acked_without_job : ∃ acts p, Run step Always initial acts p ∧ p.acks = [1] ∧
    (∀ stage ∈ p.deliveries, stage = .ended) ∧ p.jobs = [] := by
  have hrun : (exec step Always initial orphaned).any (fun p => p.acks = [1] ∧
      (∀ stage ∈ p.deliveries, stage = .ended) ∧ p.jobs = []) = true := by
    decide +kernel
  obtain ⟨p,hp,hany⟩ := exec_any hrun
  exact ⟨_,p,hp,of_decide_eq_true hany⟩

end Intake
end Nivara.Slack
