import Nivara.Scheduler.Errands
import Nivara.Slack.AtMostOncePosting

/-! The job owns retry and the row owns delivery, and the two agree about giving up as long as the
handler has its say: on the last attempt nothing but the post and its record may fail, and no
handler takes back what another has given up. -/
namespace Nivara.Slack
open Transactions Scheduler

def Stage.isTried : Stage → Bool
  | .composed _ _ => true
  | .posted _ _ => true
  | _ => false

namespace Courier
variable {ι : Type} [DecidableEq ι]

/-- A statement outside the `try` that fails on the last attempt is one whose delivery is not owed any more. -/
def lastsOut (c : Courier ι) : CourierAction ι → Bool
  | .fail i _ => (c.handlers i).all fun x => (x.attempt : Int) < x.maxAttempts ∨ x.stage.isTried ∨ (c.owed x).isNone
  | _ => true

/-- A retry does not put back a delivery that is dead. -/
def sparesDead (c : Courier ι) : CourierAction ι → Bool
  | .advance i => (c.handlers i).all fun x =>
      match x.stage with
      | .caught k error => error.permanent ∨ x.maxAttempts ≤ x.attempt ∨ (c.deliveries.committed k).all (·.status ≠ .dead)
      | _ => true
  | _ => true

def Settled (c : Courier ι) (key : Uuid × String) : Prop :=
  ∃ k r, c.deliveries.committed k = some r ∧ r.key = key ∧ (r.status ≠ .pending ∨ c.isGone key.1 = true)

def Lists (c : Courier ι) (tenantId : Uuid) (key : Uuid × String) : Prop :=
  key.1 < c.messages.length ∧ ∃ k r, c.deliveries.committed k = some r ∧ r.key = key ∧ r.tenantId = tenantId

def Booked (c : Courier ι) (job : Job JobPayload) : Prop :=
  ∀ messageId target, job.kind = outboundDeliveryJob → job.payload = .delivery messageId target →
    c.Lists job.tenantId (messageId, target) ∧ (job.status.isTerminal = true → c.Settled (messageId, target))

structure Stands (c : Courier ι) (i : ι) (x : Handling) : Prop where
  row : ∀ k, x.stage.row = some k → ∃ r, c.deliveries.committed k = some r ∧ r.key = x.key
  returning : x.stage = .returning → c.Settled x.key ∨ ∃ k v, c.deliveries.own i k = some v ∧ v.key = x.key
  thrown : ∀ message, x.stage = .thrown message → x.maxAttempts ≤ x.attempt → c.Settled x.key

/-- Where tick `i` stands with the job in its hand, if that is a delivery. -/
structure Ticks (c : Courier ι) (i : ι) : Prop where
  handles : ∀ x, c.handlers i = some x → (∃ since, c.drainage.phase i = .running since) ∧
    c.handling i = some { x with stage := .claiming } ∧ c.Stands i x
  running : ∀ y since, c.handling i = some y → c.drainage.phase i = .running since → c.handlers i ≠ none
  settling : ∀ y error, c.handling i = some y → c.drainage.phase i = .settling error →
    (error = none ∨ y.maxAttempts ≤ y.attempt) → c.Settled y.key

structure Agreed (c : Courier ι) : Prop where
  rows : Rows c.deliveries
  written : ∀ i k v, c.deliveries.own i k = some v →
    v.status = .dead ∧ ∃ r, c.deliveries.committed k = some r ∧ v.key = r.key ∧ v.tenantId = r.tenantId
  kept : c.drainage.Kept
  jobs : ∀ k job, c.drainage.queue.table.committed k = some job → c.Booked job
  ticks : ∀ i, c.Ticks i

theorem agreed_initial : (initial : Courier ι).Agreed where
  rows := rows_empty
  written i k v h := by cases h
  kept := Drainage.kept_initial
  jobs k job h := by cases h
  ticks i := ⟨fun x h => (by cases h),fun y since h => (by cases h),fun y error h => (by cases h)⟩

/-- No delivery is lost, none that is settled is taken back, and a deleted Message stays deleted. -/
structure Grown (c c' : Courier ι) : Prop where
  rows : ∀ k r, c.deliveries.committed k = some r → ∃ r', c'.deliveries.committed k = some r' ∧ r'.key = r.key ∧
    r'.tenantId = r.tenantId ∧ (r.status ≠ .pending → r'.status ≠ .pending)
  gone : ∀ m, c.isGone m = true → c'.isGone m = true
  length : c.messages.length ≤ c'.messages.length

variable {c c' : Courier ι} {i j : ι} {x : Handling} {key : Uuid × String}

omit [DecidableEq ι] in
theorem Grown.of_same (hd : c'.deliveries.committed = c.deliveries.committed) (hm : c'.messages = c.messages) : Grown c c' where
  rows k r hr := ⟨r,by rw [hd, hr],rfl,rfl,id⟩
  gone m hg := by
    rw [isGone, hm]
    exact hg
  length := by rw [hm]

omit [DecidableEq ι] in
theorem Settled.grown (h : c.Settled key) (g : Grown c c') : c'.Settled key := by
  obtain ⟨k,r,hr,hkey,hset⟩ := h
  obtain ⟨r',hr',hkey',_,hstatus⟩ := g.rows k r hr
  exact ⟨k,r',hr',hkey'.trans hkey,hset.imp hstatus (g.gone _)⟩

omit [DecidableEq ι] in
theorem Lists.grown {tenantId : Uuid} (h : c.Lists tenantId key) (g : Grown c c') : c'.Lists tenantId key := by
  obtain ⟨hlt,k,r,hr,hkey,htenant⟩ := h
  obtain ⟨r',hr',hkey',htenant',_⟩ := g.rows k r hr
  exact ⟨Nat.lt_of_lt_of_le hlt g.length,k,r',hr',hkey'.trans hkey,htenant'.trans htenant⟩

omit [DecidableEq ι] in
theorem Booked.grown {job : Job JobPayload} (h : c.Booked job) (g : Grown c c') : c'.Booked job := by
  intro messageId target hkind hpayload
  obtain ⟨hlists,hsettled⟩ := h messageId target hkind hpayload
  exact ⟨hlists.grown g,fun hterm => (hsettled hterm).grown g⟩

theorem Stands.grown (h : c.Stands i x) (g : Grown c c') (hown : ∀ k, c'.deliveries.own i k = c.deliveries.own i k) :
    c'.Stands i x where
  row k hk := by
    obtain ⟨r,hr,hkey⟩ := h.row k hk
    obtain ⟨r',hr',hkey',_⟩ := g.rows k r hr
    exact ⟨r',hr',hkey'.trans hkey⟩
  returning hstage := by
    refine (h.returning hstage).imp (·.grown g) fun ⟨k,v,hv,hkey⟩ => ?_
    exact ⟨k,v,(hown k).trans hv,hkey⟩
  thrown message hstage hlast := (h.thrown message hstage hlast).grown g

/-- A step that leaves tick `j` and its handler alone. -/
theorem Ticks.frame (h : c.Ticks j) (g : Grown c c') (hcur : c'.drainage.current j = c.drainage.current j)
    (hphase : c'.drainage.phase j = c.drainage.phase j) (hhandlers : c'.handlers j = c.handlers j)
    (hown : ∀ k, c'.deliveries.own j k = c.deliveries.own j k) : c'.Ticks j := by
  have hhandling : c'.handling j = c.handling j := by
    unfold handling
    rw [hcur]
  refine ⟨fun x hx => ?_,fun y since hy hrun => ?_,fun y error hy hset hend => ?_⟩
  · obtain ⟨hrun,hh,hstands⟩ := h.handles x (hhandlers.symm.trans hx)
    rw [hphase, hhandling]
    exact ⟨hrun,hh,hstands.grown g hown⟩
  · rw [hhandlers]
    exact h.running y since (hhandling.symm.trans hy) (hphase.symm.trans hrun)
  · exact (h.settling y error (hhandling.symm.trans hy) (hphase.symm.trans hset) hend).grown g

namespace Agreed

/-- The delivery of a tick's job is listed. -/
theorem lists (h : c.Agreed) {y : Handling} (hy : c.handling i = some y) : c.Lists y.tenantId y.key := by
  obtain ⟨hand,hcur,hy⟩ := Option.bind_eq_some_iff.mp hy
  obtain ⟨job,hjob,herr⟩ := h.kept.queue.held hand (Drainage.current_mem hcur).1
  obtain ⟨htenant,hkind,hpayload⟩ := Prod.mk.inj herr |>.imp_right Prod.mk.inj
  split at hy
  · rename_i messageId target hp
    split at hy
    · rename_i hk
      cases hy
      have hbooked := (h.jobs _ job hjob messageId target (hkind.trans hk) (hpayload.trans hp)).1
      rw [htenant] at hbooked
      exact hbooked
    · cases hy
  · cases hy

/-- A delivery that the claim does not find is settled. -/
theorem settled_of_not_owed (h : c.Agreed) (hx : c.handlers i = some x) (howed : c.owed x = none) : c.Settled x.key := by
  obtain ⟨hlt,k,r,hr,hkey,htenant⟩ := h.lists ((h.ticks i).handles x hx).2.1
  refine ⟨k,r,hr,hkey,?_⟩
  have hnot := List.find?_eq_none.mp howed k (List.mem_range.mpr (c.deliveries.lt_size_of_committed k hr))
  by_cases hpending : r.status = .pending
  · right
    have hdead : c.alive r.messageId = false := by
      by_contra halive
      refine hnot ?_
      rw [hr]
      exact decide_eq_true ⟨htenant,hkey,hpending,by simpa using halive⟩
    have hm : r.messageId = x.key.1 := congrArg Prod.fst hkey
    rw [hm, alive] at hdead
    rw [isGone]
    cases hv : c.messages[x.key.1]? with
    | none => exact absurd hlt (Nat.not_lt.mpr (List.getElem?_eq_none_iff.mp hv))
    | some v =>
      cases v with
      | none => simp
      | some message =>
        rw [hv] at hdead
        cases hdead
  · exact .inl hpending

private theorem move (h : c.Agreed) (hx : c.handlers i = some x) {t : Table ι OutboundDelivery} (hrows : Rows t)
    (hwritten : ∀ i k v, t.own i k = some v → v.status = .dead ∧ ∃ r, t.committed k = some r ∧ v.key = r.key ∧ v.tenantId = r.tenantId)
    (stage : Stage) (g : Grown c ({ c with deliveries := t }.goto i x stage))
    (hown : ∀ j k, j ≠ i → t.own j k = c.deliveries.own j k)
    (hstands : ({ c with deliveries := t }.goto i x stage).Stands i { x with stage := stage }) :
    ({ c with deliveries := t }.goto i x stage).Agreed := by
  refine ⟨hrows,hwritten,h.kept,fun k job hjob => (h.jobs k job hjob).grown g,fun j => ?_⟩
  by_cases hji : j = i
  · subst hji
    obtain ⟨hrun,hh,_⟩ := (h.ticks j).handles x hx
    refine ⟨fun y hy => ?_,fun y since _ _ => by simp [goto],fun y error hy hset hend => ?_⟩
    · have hy : some { x with stage := stage } = some y := (Function.update_self j _ c.handlers).symm.trans hy
      cases hy
      exact ⟨hrun,hh,hstands⟩
    · exact ((h.ticks j).settling y error hy hset hend).grown g
  · exact (h.ticks j).frame g rfl rfl (Function.update_of_ne hji _ _) fun k => hown j k hji

private theorem written_amend (h : c.Agreed) {k : Nat} {f : OutboundDelivery → OutboundDelivery} (hfree : c.deliveries.pending k = none) :
    ∀ i k' v, (c.deliveries.amend k f).own i k' = some v → v.status = .dead ∧
      ∃ r, (c.deliveries.amend k f).committed k' = some r ∧ v.key = r.key ∧ v.tenantId = r.tenantId := by
  intro i k' v hv
  obtain ⟨hdead,r,hr,hkey,htenant⟩ := h.written i k' v hv
  refine ⟨hdead,r,?_,hkey,htenant⟩
  rw [Table.amend_committed, if_neg, hr]
  rintro rfl
  cases hfree.symm.trans ((Table.own_eq_some_iff _ _ _).mp hv)

/-- A statement in a transaction of its own moves the handler on. -/
private theorem amended (h : c.Agreed) (hx : c.handlers i = some x) {k : Nat} {f : OutboundDelivery → OutboundDelivery} {stage : Stage}
    {c₁ : Courier ι} (hs : c.inOwnTransaction k f = some c₁) (hkey : ∀ r, (f r).key = r.key) (htenant : ∀ r, (f r).tenantId = r.tenantId)
    (hkeep : ∀ r, c.deliveries.committed k = some r → (f r).checks = true → r.checks = true → r.status ≠ .pending → (f r).status ≠ .pending)
    (hstands : ∀ r, c.deliveries.committed k = some r → (c₁.goto i x stage).deliveries.committed k = some (f r) →
      Grown c (c₁.goto i x stage) → (c₁.goto i x stage).Stands i { x with stage := stage }) :
    (c₁.goto i x stage).Agreed := by
  obtain ⟨rfl,hfree,r,hr,_,hc⟩ := inOwnTransaction_some hs
  have hafter : (c.deliveries.amend k f).committed k = some (f r) := by simp [Table.amend_committed, hr]
  have g : Grown c ({ c with deliveries := c.deliveries.amend k f }.goto i x stage) := by
    refine ⟨fun k' s hs' => ?_,fun _ hg => hg,Nat.le_refl _⟩
    by_cases hk : k' = k
    · subst hk
      cases hr.symm.trans hs'
      exact ⟨f r,hafter,hkey r,htenant r,hkeep r hr hc (h.rows.checked k' r hr)⟩
    · exact ⟨s,by simp [goto, Table.amend_committed, hk, hs'],rfl,rfl,id⟩
  refine h.move hx (h.rows.amend hkey (fun s hs => ?_) hfree) (h.written_amend hfree) stage g (fun _ _ _ => rfl) (hstands r hr hafter g)
  cases hr.symm.trans hs
  exact hc

private theorem abandoned (h : c.Agreed) (hx : c.handlers i = some x) {k : Nat} {error : String} (hk : x.stage.row = some k)
    (hs : c.abandon i x k error = some c') : c'.Agreed := by
  obtain ⟨c₁,h₁,rfl⟩ := Option.map_eq_some_iff.mp hs
  obtain ⟨rfl,hfree,r,hr,_,hc⟩ := inTransaction_some h₁
  obtain ⟨s,hs,hkey⟩ := ((h.ticks i).handles x hx).2.2.row k hk
  cases hr.symm.trans hs
  have hopen : ∀ s, c.deliveries.committed k = some s → s.deliveredAt = none := by
    intro s hs
    cases hr.symm.trans hs
    simpa [OutboundDelivery.checks, OutboundDelivery.settled] using hc
  -- what the handler sees of its row is the row, or its own earlier giving up
  have hvis : ∀ v, c.deliveries.visible i k = some v → v.key = r.key ∧ v.tenantId = r.tenantId := by
    intro v hv
    rcases Table.visible_cases _ _ _ hv with ho | ⟨_,hc⟩
    · obtain ⟨_,r',hr',hkey',htenant'⟩ := h.written i k v ho
      cases hr.symm.trans hr'
      exact ⟨hkey',htenant'⟩
    · cases hr.symm.trans hc
      exact ⟨rfl,rfl⟩
  refine h.move hx (h.rows.write hopen hfree) (fun j k' v hv => ?_) .returning (.of_same rfl rfl)
    (fun j k' hji => Table.own_write_other _ _ _ _ hji hfree) ⟨fun _ hrow => (by cases hrow),fun _ => .inr ?_,fun _ hthrown => (by cases hthrown)⟩
  · by_cases hji : j = i
    · subst hji
      rcases Table.own_write_cases _ _ _ hv with ⟨s,hmem,hs,_,rfl⟩ | ho
      · cases List.mem_singleton.mp hmem
        exact ⟨rfl,r,hr,hvis s hs⟩
      · exact h.written j k' v ho
    · rw [Table.own_write_other _ _ _ _ hji hfree] at hv
      exact h.written j k' v hv
  · obtain ⟨v,hv⟩ : ∃ v, c.deliveries.visible i k = some v := by
      cases ho : c.deliveries.own i k with
      | some v => exact ⟨v,Table.visible_of_own _ _ _ ho⟩
      | none => exact ⟨r,(Table.visible_of_no_own _ _ _ ho).trans hr⟩
    exact ⟨k,_,Table.own_write_picked _ _ _ (by simp) hv rfl,(hvis v hv).1.trans hkey⟩

private theorem idle (h : c.Agreed) (hx : c.handlers i = some x) (stage : Stage)
    (hrow : ∀ k, stage.row = some k → x.stage.row = some k) (hreturning : stage = .returning → c.Settled x.key)
    (hthrown : ∀ message, stage = .thrown message → x.maxAttempts ≤ x.attempt → c.Settled x.key) : (c.goto i x stage).Agreed := by
  have g : Grown c (c.goto i x stage) := .of_same rfl rfl
  refine h.move hx h.rows h.written stage g (fun _ _ _ => rfl) ⟨fun k hk => ?_,fun hstage => .inl ((hreturning hstage).grown g),?_⟩
  · exact ((h.ticks i).handles x hx).2.2.row k (hrow k hk)
  · exact fun message hstage hlast => (hthrown message hstage hlast).grown g

private theorem claim (h : c.Agreed) (hx : c.handlers i = some x) (hs : c.claim i x = some c') : c'.Agreed := by
  simp only [Courier.claim] at hs
  split at hs
  · rename_i howed
    cases hs
    exact h.idle hx .returning (fun _ hk => by cases hk) (fun _ => h.settled_of_not_owed hx howed) fun _ hstage => by cases hstage
  · rename_i k hk
    obtain ⟨c₁,h₁,rfl⟩ := Option.map_eq_some_iff.mp hs
    have hany := List.find?_some hk
    obtain ⟨r,hr,howed⟩ := (Option.any_eq_true _ _).mp hany
    refine h.amended hx h₁ (fun _ => rfl) (fun _ => rfl) (fun _ _ _ _ hne => hne) fun s hs' hafter _ => ?_
    cases hr.symm.trans hs'
    refine ⟨fun k' hk' => ?_,fun hstage => (by cases hstage),fun _ hstage => (by cases hstage)⟩
    cases hk'
    exact ⟨_,hafter,(of_decide_eq_true howed).2.1⟩

private theorem grown_commit (h : c.Agreed) (hc : c'.deliveries.committed = c.deliveries.visible i) (hm : c'.messages = c.messages) :
    Grown c c' := by
  refine ⟨fun k r hr => ?_,fun m hg => ?_,by rw [hm]⟩
  · rw [hc]
    cases ho : c.deliveries.own i k with
    | none => exact ⟨r,(Table.visible_of_no_own _ _ _ ho).trans hr,rfl,rfl,id⟩
    | some v =>
      obtain ⟨hdead,s,hs,hkey,htenant⟩ := h.written i k v ho
      cases hr.symm.trans hs
      exact ⟨v,Table.visible_of_own _ _ _ ho,hkey,htenant,fun _ => by simp [hdead]⟩
  · rw [isGone, hm]
    exact hg

private theorem leave (h : c.Agreed) (hx : c.handlers i = some x) {t : Table ι OutboundDelivery} {error : Option String} (hrows : Rows t)
    (hwritten : ∀ i k v, t.own i k = some v → v.status = .dead ∧ ∃ r, t.committed k = some r ∧ v.key = r.key ∧ v.tenantId = r.tenantId)
    (g : Grown c { c with deliveries := t }) (hown : ∀ j k, j ≠ i → t.own j k = c.deliveries.own j k)
    (hsettled : error = none ∨ x.maxAttempts ≤ x.attempt → ({ c with deliveries := t } : Courier ι).Settled x.key)
    (hs : c.leave i t error = some c') : c'.Agreed := by
  obtain ⟨d,hd,rfl⟩ := Option.map_eq_some_iff.mp hs
  cases Drainage.stirs_of_step hd with
  | @finish _ _ since hrun =>
    refine ⟨hrows,hwritten,h.kept.step (.finish hrun),fun k job hjob => (h.jobs k job hjob).grown ⟨g.rows,g.gone,g.length⟩,fun j => ?_⟩
    by_cases hji : j = i
    · subst hji
      have hh := ((h.ticks j).handles x hx).2.1
      refine ⟨fun y hy => ?_,fun y since hy hphase => ?_,fun y error' hy hphase hend => ?_⟩
      · cases (Function.update_self j _ c.handlers).symm.trans hy
      · cases (Function.update_self j _ c.drainage.phase).symm.trans hphase
      · cases (Function.update_self j _ c.drainage.phase).symm.trans hphase
        cases hh.symm.trans hy
        exact (hsettled hend :)
    · exact (h.ticks j).frame ⟨g.rows,g.gone,g.length⟩ rfl (Function.update_of_ne hji _ _) (Function.update_of_ne hji _ _)
        fun k => hown j k hji
  | quiet still _ _ _ _ _ => cases still

private theorem leave_commit (h : c.Agreed) (hx : c.handlers i = some x) (hstage : x.stage = .returning)
    (hs : c.leave i (c.deliveries.commit i) none = some c') : c'.Agreed := by
  have g : Grown c { c with deliveries := c.deliveries.commit i } := h.grown_commit rfl rfl
  refine h.leave hx (h.rows.commit i) (fun j k v hv => ?_) g (fun j k hji => Table.own_commit_other _ _ _ _ hji) (fun _ => ?_) hs
  · have hji : j ≠ i := by
      rintro rfl
      simp at hv
    rw [Table.own_commit_other _ _ _ _ hji] at hv
    obtain ⟨hdead,r,hr,hrest⟩ := h.written j k v hv
    refine ⟨hdead,r,?_,hrest⟩
    rw [Table.commit_committed, Table.visible_of_no_own _ _ _ (Table.own_exclusive _ _ _ _ hv (Ne.symm hji)), hr]
  · rcases ((h.ticks i).handles x hx).2.2.returning hstage with hsettled | ⟨k,v,hv,hkey⟩
    · exact hsettled.grown g
    · exact ⟨k,v,Table.visible_of_own _ _ _ hv,hkey,.inl (by simp [(h.written i k v hv).1])⟩

private theorem written_rollback (h : c.Agreed) (i : ι) : ∀ j k v, (c.deliveries.rollback i).own j k = some v →
    v.status = .dead ∧ ∃ r, (c.deliveries.rollback i).committed k = some r ∧ v.key = r.key ∧ v.tenantId = r.tenantId := by
  intro j k v hv
  by_cases hji : j = i
  · subst hji
    simp at hv
  · rw [Table.own_rollback_other _ _ _ _ hji] at hv
    exact h.written j k v hv

/-- Every statement of the handler, and the end of its transaction. -/
private theorem advance (h : c.Agreed) (hx : c.handlers i = some x) (hspares : c.sparesDead (.advance i) = true)
    (hs : c.advance i x = some c') : c'.Agreed := by
  have hstands := ((h.ticks i).handles x hx).2.2
  cases hstage : x.stage with
  | claiming =>
    simp only [Courier.advance, hstage] at hs
    exact h.claim hx hs
  | claimed k =>
    have hk : x.stage.row = some k := by rw [hstage]; rfl
    simp only [Courier.advance, hstage] at hs
    split at hs
    · exact h.abandoned hx hk hs
    · split at hs
      · exact h.abandoned hx hk hs
      · cases hs
        refine h.idle hx _ (fun k' hk' => ?_) (fun hr => by cases hr) fun _ ht => by cases ht
        cases hk'
        exact hk
  | composed k text =>
    simp only [Courier.advance, hstage] at hs
    cases hs
  | posted k ts =>
    simp only [Courier.advance, hstage] at hs
    obtain ⟨c₁,h₁,rfl⟩ := Option.map_eq_some_iff.mp hs
    refine h.amended hx h₁ (fun _ => rfl) (fun _ => rfl) (fun _ _ _ _ _ hpending => by cases hpending) fun r hr hafter _ => ?_
    obtain ⟨s,hs',hkey⟩ := hstands.row k (by rw [hstage]; rfl)
    cases hr.symm.trans hs'
    refine ⟨fun _ hk => (by cases hk),fun _ => .inl ⟨k,_,hafter,hkey,.inl fun hpending => ?_⟩,fun _ ht => (by cases ht)⟩
    cases hpending
  | caught k error =>
    simp only [Courier.advance, hstage] at hs
    split at hs
    · exact h.abandoned hx (by rw [hstage]; rfl) hs
    · rename_i hretry
      rw [not_or] at hretry
      obtain ⟨c₁,h₁,rfl⟩ := Option.map_eq_some_iff.mp hs
      refine h.amended hx h₁ (fun _ => rfl) (fun _ => rfl) (fun r hr hc hchecks hne => ?_) fun r hr hafter _ => ?_
      · -- the check refuses to take a delivered row back, and a dead one is spared
        have hdead : r.status ≠ .dead := by
          simp only [sparesDead, hx, Option.all_some, hstage, hr, decide_eq_true_eq] at hspares
          exact (hspares.resolve_left hretry.1).resolve_left hretry.2
        have hdelivered : r.status = .delivered := by
          cases hstatus : r.status with
          | pending => exact absurd hstatus hne
          | delivered => rfl
          | dead => exact absurd hstatus hdead
        have hsome := (OutboundDelivery.delivered_iff hchecks).mp hdelivered
        simp [OutboundDelivery.checks, OutboundDelivery.settled] at hc
        exact absurd hc hsome
      · refine ⟨fun _ hk => (by cases hk),fun hr => (by cases hr),fun _ _ hlast => absurd hlast hretry.2⟩
  | returning =>
    simp only [Courier.advance, hstage] at hs
    exact h.leave_commit hx hstage hs
  | thrown message =>
    simp only [Courier.advance, hstage] at hs
    refine h.leave hx (h.rows.rollback i) (h.written_rollback i) (.of_same rfl rfl)
      (fun j k hji => Table.own_rollback_other _ _ _ _ hji) (fun hend => ?_) hs
    rcases hend with hnone | hlast
    · cases hnone
    · exact (hstands.thrown message hstage hlast).grown (.of_same rfl rfl)

private theorem failed (h : c.Agreed) (hx : c.handlers i = some x) {message : String} (hlasts : c.lastsOut (.fail i message) = true)
    (hs : c.failed i x message = some c') : c'.Agreed := by
  simp only [Courier.failed] at hs
  split at hs
  · rename_i k text hstage
    cases hs
    refine h.idle hx _ (fun k' hk' => ?_) (fun hr => by cases hr) fun _ ht => by cases ht
    cases hk'
    rw [hstage]
    rfl
  · rename_i k ts hstage
    cases hs
    refine h.idle hx _ (fun k' hk' => ?_) (fun hr => by cases hr) fun _ ht => by cases ht
    cases hk'
    rw [hstage]
    rfl
  · cases hs
  · rename_i hcomposed hposted hthrown
    cases hs
    refine h.idle hx _ (fun k' hk' => by cases hk') (fun hr => by cases hr) fun _ _ hlast => ?_
    have htried : x.stage.isTried = false := by
      cases hstage : x.stage with
      | composed k text => exact absurd hstage (hcomposed k text)
      | posted k ts => exact absurd hstage (hposted k ts)
      | _ => rfl
    refine h.settled_of_not_owed hx ?_
    simpa [lastsOut, hx, htried, Int.not_lt.mpr hlast] using hlasts

private theorem post (h : c.Agreed) (hx : c.handlers i = some x) {accepts : Bool} {answer : Answer}
    (hs : c.post i x accepts answer = some c') : c'.Agreed := by
  have haccepted : ∀ {c : Courier ι} (_ : c.Agreed) keys, ({ c with accepted := keys } : Courier ι).Agreed := by
    intro c h keys
    refine ⟨h.rows,h.written,h.kept,fun k job hjob => (h.jobs k job hjob).grown (.of_same rfl rfl),fun j => ?_⟩
    exact (h.ticks j).frame (.of_same rfl rfl) rfl rfl rfl fun _ => rfl
  simp only [Courier.post] at hs
  split at hs
  · rename_i k text hstage
    split at hs
    · cases hs
      cases hpost : postMessage answer with
      | ok ts =>
        refine haccepted (h.idle hx _ (fun k' hk' => ?_) (fun hr => by cases hr) fun _ ht => by cases ht) _
        cases hk'
        rw [hstage]
        rfl
      | error error =>
        refine haccepted (h.idle hx _ (fun k' hk' => ?_) (fun hr => by cases hr) fun _ ht => by cases ht) _
        cases hk'
        rw [hstage]
        rfl
    · cases hs
  · cases hs

private theorem booked (h : c.Agreed) (g : Grown c c') {a : QueueAction ι JobPayload} {q : Queue ι JobPayload}
    (turn : c.drainage.queue.Turn a q) (place : a.place = none)
    (hnew : ∀ tenantId input, a = .enqueue tenantId input → c'.Booked (enqueued tenantId input c.drainage.queue.clock)) :
    ∀ k job, q.table.committed k = some job → c'.Booked job := by
  intro k job hjob
  rcases h.kept.queue.row_of_turn turn place hjob with ⟨old,hold,herr,hterm⟩ | ⟨tenantId,input,ha,rfl⟩
  · intro messageId target hkind hpayload
    obtain ⟨htenant,hk,hp⟩ := Prod.mk.inj herr |>.imp_right Prod.mk.inj
    obtain ⟨hlists,_⟩ := h.jobs k old hold messageId target (hk.symm.trans hkind) (hp.symm.trans hpayload)
    rw [← htenant] at hlists
    refine ⟨hlists.grown g,fun hdone => ?_⟩
    have hsame := hterm hdone
    subst hsame
    exact ((h.jobs k job hold messageId target hkind hpayload).2 hdone).grown g
  · exact hnew tenantId input ha

/-- A step of the drainers that leaves the deliveries and the Messages alone. -/
private theorem stirred (h : c.Agreed) {d : Drainage ι JobPayload} {a : DrainAction ι JobPayload} (hs : c.drainage.Stirs a d)
    (hmover : a.mover = none) (hnew : ∀ tenantId input, a = .enqueue tenantId input → input.kind ≠ outboundDeliveryJob) :
    ({ c with drainage := d } : Courier ι).Agreed := by
  have g : Grown c ({ c with drainage := d } : Courier ι) := .of_same rfl rfl
  refine ⟨h.rows,h.written,h.kept.step hs,?_,fun j => ?_⟩
  · cases hs with
    | quiet _ turn place _ queues _ =>
      refine h.booked g turn place fun tenantId input ha messageId target hkind _ => ?_
      exact absurd hkind (hnew tenantId input (queues tenantId input ha))
    | _ => cases hmover
  · obtain ⟨hcur,hphase⟩ := Drainage.stands_of_stirs hs (by rw [hmover]; exact (Option.some_ne_none j).symm)
    exact (h.ticks j).frame g hcur hphase rfl fun _ => rfl

private theorem ticks_next (hhandlers : c.handlers i = none) (hphase : c.drainage.phase i = .next) : c.Ticks i := by
  refine ⟨fun x hx => ?_,fun y since _ hrun => ?_,fun y error _ hset => ?_⟩
  · rw [hhandlers] at hx
    cases hx
  · rw [hphase] at hrun
    cases hrun
  · rw [hphase] at hset
    cases hset

private theorem ticked (h : c.Agreed) {a : DrainAction ι JobPayload} (hs : c.drainage.Stirs a c'.drainage) (hi : a.mover = some i)
    (g : Grown c c') (hrows : Rows c'.deliveries)
    (hwritten : ∀ i k v, c'.deliveries.own i k = some v →
      v.status = .dead ∧ ∃ r, c'.deliveries.committed k = some r ∧ v.key = r.key ∧ v.tenantId = r.tenantId)
    (hjobs : ∀ k job, c'.drainage.queue.table.committed k = some job → c'.Booked job)
    (hothers : ∀ j, j ≠ i → c'.handlers j = c.handlers j ∧ ∀ k, c'.deliveries.own j k = c.deliveries.own j k)
    (htick : c'.Ticks i) : c'.Agreed := by
  refine ⟨hrows,hwritten,h.kept.step hs,hjobs,fun j => ?_⟩
  by_cases hji : j = i
  · rw [hji]
    exact htick
  · obtain ⟨hcur,hphase⟩ := Drainage.stands_of_stirs hs (by rw [hi]; simpa using Ne.symm hji)
    exact (h.ticks j).frame g hcur hphase (hothers j hji).1 (hothers j hji).2

private theorem commit (h : c.Agreed) {now : Int} {picks : List Nat} (hopen : c.drainage.queue.claiming i = some (now, picks)) :
    ({ c with drainage := ({ c.drainage with queue := c.drainage.queue.handedOut i now picks } : Drainage ι JobPayload).enter i .next } :
      Courier ι).Agreed := by
  have hnone : c.handlers i = none := by
    refine Option.eq_none_iff_forall_ne_some.mpr fun x hx => ?_
    have hh := ((h.ticks i).handles x hx).2.1
    rw [handling, h.kept.resting i (by simp [hopen])] at hh
    cases hh
  refine h.ticked (.commit hopen) rfl (.of_same rfl rfl) h.rows h.written ?_ (fun _ _ => ⟨rfl,fun _ => rfl⟩)
    (ticks_next hnone (Function.update_self ..))
  exact h.booked (.of_same rfl rfl) (.commit hopen) rfl fun _ _ ha => by cases ha

private theorem start (h : c.Agreed) {hand : Hand ι JobPayload} (hcur : c.drainage.current i = some hand) (hnext : c.drainage.phase i = .next)
    (hhandler : hasHandler hand.job.kind = true) :
    ({ c with
      drainage := c.drainage.enter i (.running c.drainage.queue.clock)
      handlers := Function.update c.handlers i (c.handling i) } : Courier ι).Agreed := by
  have g : Grown c ({ c with
      drainage := c.drainage.enter i (.running c.drainage.queue.clock)
      handlers := Function.update c.handlers i (c.handling i) } : Courier ι) := .of_same rfl rfl
  have hfirst : ∀ y, c.handling i = some y → y.stage = .claiming := by
    intro y hy
    obtain ⟨hand,_,hy⟩ := Option.bind_eq_some_iff.mp hy
    split at hy
    · split at hy
      · cases hy
        rfl
      · cases hy
    · cases hy
  refine h.ticked (.start hcur hnext hhandler) rfl g h.rows h.written (fun k job hjob => (h.jobs k job hjob).grown g)
    (fun j hji => ⟨Function.update_of_ne hji _ _,fun _ => rfl⟩) ⟨fun x hx => ?_,fun y since hy _ hnone => ?_,fun y error _ hset => ?_⟩
  · have hx : c.handling i = some x := (Function.update_self i _ c.handlers).symm.trans hx
    have hstage := hfirst x hx
    refine ⟨⟨_,Function.update_self ..⟩,?_,fun k hk => ?_,fun hr => ?_,fun _ ht => ?_⟩
    · rw [← hstage]
      exact hx
    · rw [hstage] at hk
      cases hk
    · rw [hstage] at hr
      cases hr
    · rw [hstage] at ht
      cases ht
  · have hnone : c.handling i = none := (Function.update_self i _ c.handlers).symm.trans hnone
    cases hnone.symm.trans hy
  · cases (Function.update_self i _ c.drainage.phase).symm.trans hset

private theorem goes_on (h : c.Agreed) {a : DrainAction ι JobPayload} {phase : Phase} (hs : c.drainage.Stirs a (c.drainage.enter i phase))
    (hi : a.mover = some i) (hnone : c.handling i = none) : ({ c with drainage := c.drainage.enter i phase } : Courier ι).Agreed := by
  have g : Grown c ({ c with drainage := c.drainage.enter i phase } : Courier ι) := .of_same rfl rfl
  refine h.ticked hs hi g h.rows h.written (fun k job hjob => (h.jobs k job hjob).grown g) (fun _ _ => ⟨rfl,fun _ => rfl⟩)
    ⟨fun x hx => ?_,fun y since hy _ => ?_,fun y error hy _ _ => ?_⟩
  · cases hnone.symm.trans ((h.ticks i).handles x hx).2.1
  · cases hnone.symm.trans hy
  · cases hnone.symm.trans hy

private theorem settle (h : c.Agreed) {error : Option String} {hand : Hand ι JobPayload} {f : Job JobPayload → Job JobPayload}
    {e : JobEvent} (hphase : c.drainage.phase i = .settling error) (hcur : c.drainage.current i = some hand)
    (hfree : c.drainage.queue.table.pending hand.job.id = none) (hset : Settles hand f e) (hcompletes : e = .completed → error = none) :
    ({ c with drainage := ({ c.drainage with
      queue := c.drainage.queue.settled (c.drainage.place i) hand.job.id f e } : Drainage ι JobPayload).enter i .next } : Courier ι).Agreed := by
  have g : Grown c ({ c with drainage := ({ c.drainage with
      queue := c.drainage.queue.settled (c.drainage.place i) hand.job.id f e } : Drainage ι JobPayload).enter i .next } : Courier ι) :=
    .of_same rfl rfl
  have hnone : c.handlers i = none := by
    refine Option.eq_none_iff_forall_ne_some.mpr fun x hx => ?_
    obtain ⟨since,hrun⟩ := ((h.ticks i).handles x hx).1
    cases hphase.symm.trans hrun
  have hs : c.drainage.Stirs (.settle i 0) (({ c.drainage with
      queue := c.drainage.queue.settled (c.drainage.place i) hand.job.id f e } : Drainage ι JobPayload).enter i .next) :=
    .settle hphase hcur hfree hset hcompletes
  refine h.ticked hs rfl g h.rows h.written (fun k job' hjob' => ?_)
    (fun _ _ => ⟨rfl,fun _ => rfl⟩) (ticks_next hnone (Function.update_self ..))
  simp only [Drainage.enter, Queue.settled, Table.amend_committed] at hjob'
  split at hjob'
  · obtain ⟨job,hjob,rfl⟩ := Option.map_eq_some_iff.mp hjob'
    intro messageId target hkind hpayload
    obtain ⟨htenant,hk,hp⟩ := Prod.mk.inj (hset.errand job) |>.imp_right Prod.mk.inj
    obtain ⟨hlists,_⟩ := h.jobs _ job hjob messageId target (hk.symm.trans hkind) (hp.symm.trans hpayload)
    rw [← htenant] at hlists
    refine ⟨hlists.grown g,fun hterm => ?_⟩
    -- the tick has the errand of the row it settles
    obtain ⟨job',hjob',herr⟩ := h.kept.queue.held hand (Drainage.current_mem hcur).1
    cases hjob.symm.trans hjob'
    obtain ⟨_,hk',hp'⟩ := Prod.mk.inj herr |>.imp_right Prod.mk.inj
    have hy : c.handling i = some ⟨hand.job.tenantId, messageId, target, hand.job.attempts, hand.job.maxAttempts, .claiming⟩ := by
      simp [handling, hcur, ← hp', ← hk', hp.symm.trans hpayload, hk.symm.trans hkind]
    refine ((h.ticks i).settling _ error hy hphase ?_).grown g
    cases hset with
    | completed => exact .inl (hcompletes rfl)
    | failed _ _ _ => cases hterm
    | died _ hlast => exact .inr hlast
  · exact (h.jobs k job' hjob').grown g

private theorem crash (h : c.Agreed) (i : ι) :
    ({ c with
      drainage := ({ c.drainage with queue := c.drainage.queue.crashed i } : Drainage ι JobPayload).enter i .next
      deliveries := c.deliveries.rollback i
      handlers := Function.update c.handlers i none } : Courier ι).Agreed := by
  refine h.ticked (.crash i) rfl (.of_same rfl rfl) (h.rows.rollback i) (h.written_rollback i) ?_
    (fun j hji => ⟨Function.update_of_ne hji _ _,fun k => Table.own_rollback_other _ _ _ _ hji⟩)
    (ticks_next (Function.update_self ..) (Function.update_self ..))
  exact h.booked (.of_same rfl rfl) (.crash i) rfl fun _ _ ha => by cases ha

private theorem drain (h : c.Agreed) {a : DrainAction ι JobPayload} (hs : c.drain a = some c') : c'.Agreed := by
  cases a with
  | enqueue tenantId input =>
    simp only [Courier.drain] at hs
    split at hs
    · cases hs
    · rename_i hkind
      obtain ⟨d,hd,rfl⟩ := Option.map_eq_some_iff.mp hs
      refine h.stirred (Drainage.stirs_of_step hd) rfl fun _ _ ha => ?_
      cases ha
      exact hkind
  | start i =>
    simp only [Courier.drain] at hs
    split at hs
    · obtain ⟨d,hd,rfl⟩ := Option.map_eq_some_iff.mp hs
      cases Drainage.stirs_of_step hd with
      | quiet still _ _ _ _ _ => cases still
      | start hcur hnext hhandler => exact h.start hcur hnext hhandler
    · cases hs
  | finish i error =>
    simp only [Courier.drain] at hs
    split at hs
    · rename_i hnone
      obtain ⟨d,hd,rfl⟩ := Option.map_eq_some_iff.mp hs
      cases Drainage.stirs_of_step hd with
      | quiet still _ _ _ _ _ => cases still
      | finish hrun =>
        refine h.goes_on (.finish hrun) rfl (Option.eq_none_iff_forall_ne_some.mpr fun y hy => ?_)
        exact (h.ticks i).running y _ hy hrun (Option.isNone_iff_eq_none.mp hnone)
    · cases hs
  | crash i =>
    simp only [Courier.drain] at hs
    obtain ⟨d,hd,rfl⟩ := Option.map_eq_some_iff.mp hs
    cases Drainage.stirs_of_step hd with
    | quiet still _ _ _ _ _ => cases still
    | crash _ => exact h.crash i
  | elapse now =>
    obtain ⟨d,hd,rfl⟩ := Option.map_eq_some_iff.mp hs
    exact h.stirred (Drainage.stirs_of_step hd) rfl fun _ _ ha => by cases ha
  | claim i limit picks =>
    obtain ⟨d,hd,rfl⟩ := Option.map_eq_some_iff.mp hs
    exact h.stirred (Drainage.stirs_of_step hd) rfl fun _ _ ha => by cases ha
  | rollback i =>
    obtain ⟨d,hd,rfl⟩ := Option.map_eq_some_iff.mp hs
    exact h.stirred (Drainage.stirs_of_step hd) rfl fun _ _ ha => by cases ha
  | commit i =>
    obtain ⟨d,hd,rfl⟩ := Option.map_eq_some_iff.mp hs
    cases Drainage.stirs_of_step hd with
    | quiet still _ _ _ _ _ => cases still
    | commit hopen => exact h.commit hopen
  | reject i =>
    obtain ⟨d,hd,rfl⟩ := Option.map_eq_some_iff.mp hs
    cases Drainage.stirs_of_step hd with
    | quiet still _ _ _ _ _ => cases still
    | @reject _ hand hcur hnext hhandler =>
      refine h.goes_on (.reject hcur hnext hhandler) rfl (Option.eq_none_iff_forall_ne_some.mpr fun y hy => ?_)
      rw [handling, hcur, Option.bind_some] at hy
      split at hy
      · split at hy
        · rename_i hkind
          simp [hasHandler, hkind] at hhandler
        · cases hy
      · cases hy
  | settle i random =>
    obtain ⟨d,hd,rfl⟩ := Option.map_eq_some_iff.mp hs
    cases Drainage.stirs_of_step hd with
    | quiet still _ _ _ _ _ => cases still
    | settle hphase hcur hfree hset hcompletes => exact h.settle hphase hcur hfree hset hcompletes

private theorem schedule (h : c.Agreed) {message : Message} {messageId : Uuid} {target : String}
    (hmessage : c.messages[messageId]?.join = some message) (hs : c.schedule message messageId target = some c') : c'.Agreed := by
  simp only [Courier.schedule] at hs
  split at hs
  · cases hs
    exact h
  · rename_i hnew
    obtain ⟨d,hd,rfl⟩ := Option.map_eq_some_iff.mp hs
    have hstirs := Drainage.stirs_of_step hd
    have g : Grown c ({ c with
        drainage := d
        deliveries := c.deliveries.append ⟨message.tenantId, messageId, target, .pending, 0, none, none, none⟩ } : Courier ι) :=
      ⟨fun k r hr => ⟨r,Table.append_committed_of_committed _ _ hr,rfl,rfl,id⟩,fun _ hg => hg,Nat.le_refl _⟩
    have hlt : messageId < c.messages.length := by
      by_contra hge
      rw [List.getElem?_eq_none_iff.mpr (Nat.not_lt.mp hge)] at hmessage
      cases hmessage
    refine ⟨h.rows.append rfl fun k r hr hkey => hnew ?_,fun i k v hv => ?_,h.kept.step hstirs,?_,fun j => ?_⟩
    · refine List.any_eq_true.mpr ⟨k,List.mem_range.mpr (c.deliveries.lt_size_of_committed k hr),?_⟩
      rw [hr]
      exact decide_eq_true hkey
    · obtain ⟨hdead,r,hr,hrest⟩ := h.written i k v hv
      exact ⟨hdead,r,Table.append_committed_of_committed _ _ hr,hrest⟩
    · cases hstirs with
      | quiet _ turn place _ queues _ =>
        refine h.booked g turn place fun tenantId input ha m t hkind hpayload => ?_
        cases queues tenantId input ha
        cases hpayload
        refine ⟨⟨hlt,c.deliveries.size,⟨message.tenantId, messageId, target, .pending, 0, none, none, none⟩,?_,rfl,rfl⟩,
          fun hterm => by cases hterm⟩
        simp [Table.append_committed]
    · obtain ⟨hcur,hphase⟩ := Drainage.stands_of_stirs hstirs (by simp [DrainAction.mover])
      exact (h.ticks j).frame g hcur hphase rfl fun _ => rfl

private theorem dispatchIn (h : c.Agreed) {messageId : Uuid} {slackChannelId slackThreadTs : Option String}
    (hs : c.dispatchIn messageId slackChannelId slackThreadTs = some c') : c'.Agreed := by
  obtain ⟨message,hmessage,hs⟩ := Option.bind_eq_some_iff.mp hs
  split at hs
  · cases hs
    exact h
  · split at hs
    · cases hs
      exact h
    · exact h.schedule hmessage hs

private theorem messages (h : c.Agreed) {messages : List (Option Message)} (g : Grown c { c with messages := messages }) :
    ({ c with messages := messages } : Courier ι).Agreed :=
  ⟨h.rows,h.written,h.kept,fun k job hjob => (h.jobs k job hjob).grown g,fun j => (h.ticks j).frame g rfl rfl rfl fun _ => rfl⟩

theorem step (h : c.Agreed) {a : CourierAction ι} (hlasts : c.lastsOut a = true) (hspares : c.sparesDead a = true)
    (hs : c.step a = some c') : c'.Agreed := by
  cases a with
  | create message =>
    cases hs
    refine h.messages ⟨fun k r hr => ⟨r,hr,rfl,rfl,id⟩,fun m hg => ?_,by simp⟩
    have hg' := of_decide_eq_true hg
    have hlt : m < c.messages.length := (List.getElem?_eq_some_iff.mp hg').1
    exact decide_eq_true ((List.getElem?_append_left hlt).trans hg')
  | delete messageId =>
    simp only [Courier.step] at hs
    split at hs
    · cases hs
      refine h.messages ⟨fun k r hr => ⟨r,hr,rfl,rfl,id⟩,fun m hg => ?_,by simp⟩
      exact decide_eq_true (getElem?_set_none (of_decide_eq_true hg))
    · cases hs
  | dispatch messageId slackChannelId slackThreadTs => exact h.dispatchIn hs
  | drain a => exact h.drain hs
  | advance i =>
    obtain ⟨x,hx,hs⟩ := Option.bind_eq_some_iff.mp hs
    exact h.advance hx hspares hs
  | fail i message =>
    obtain ⟨x,hx,hs⟩ := Option.bind_eq_some_iff.mp hs
    exact h.failed hx hlasts hs
  | post i accepts answer =>
    obtain ⟨x,hx,hs⟩ := Option.bind_eq_some_iff.mp hs
    exact h.post hx hs

end Agreed

/-- The job of a delivery is `done` or `dead` only when the delivery is `delivered` or `dead`, unless its
Message is deleted. -/
def JobsAgree (c : Courier ι) : Prop :=
  ∀ k job messageId target, c.drainage.queue.table.committed k = some job → job.kind = outboundDeliveryJob →
    job.payload = .delivery messageId target → job.status = .done ∨ job.status = .dead → c.alive messageId = true →
    ∃ n r, c.deliveries.committed n = some r ∧ r.key = (messageId, target) ∧ (r.status = .delivered ∨ r.status = .dead)

theorem Agreed.jobsAgree (h : c.Agreed) : c.JobsAgree := by
  intro k job messageId target hjob hkind hpayload hstatus halive
  have hterm : job.status.isTerminal = true := by rcases hstatus with hs | hs <;> rw [hs] <;> rfl
  obtain ⟨n,r,hr,hkey,hset⟩ := (h.jobs k job hjob messageId target hkind hpayload).2 hterm
  refine ⟨n,r,hr,hkey,?_⟩
  rcases hset with hne | hgone
  · cases hst : r.status with
    | pending => exact absurd hst hne
    | delivered => exact .inl rfl
    | dead => exact .inr rfl
  · rw [alive, of_decide_eq_true hgone] at halive
    cases halive

end Courier
end Nivara.Slack
