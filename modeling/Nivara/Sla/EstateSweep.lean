import Mathlib.Data.List.TakeWhile
import Nivara.Sla.Chronicle

/-! A sweep over all tenants, from `tenancy/tenancy.service.ts` and the `run` of the two sweeps: the visits
commit tenant by tenant, and what they return is announced when all of them are over. -/
namespace Nivara.Sla
open Transactions Tickets

/-- How far a sweep has come: the visits it has made, and what those of them that committed have returned. -/
structure Progress (D α : Type) where
  db : D
  visited : List Uuid
  committed : List α

section Loop
variable {D α : Type}

/-- `withTenant`. The visits of the tenants in `throws` throw, and are rolled back. -/
def withTenant (throws : Uuid → Bool) (work : D → Uuid → D × List α) (p : Progress D α) (tenantId : Uuid) :
    Progress D α × Option (List α) :=
  if throws tenantId then ({ p with visited := p.visited ++ [tenantId] }, none)
  else
    let (d, returned) := work p.db tenantId
    (⟨d, p.visited ++ [tenantId], p.committed ++ returned⟩, some returned)

def forEachTenant (throws : Uuid → Bool) (work : D → Uuid → D × List α) :
    List Uuid → Progress D α → List α → Progress D α × Option (List α)
  | [], p, collected => (p, some collected)
  | tenantId :: rest, p, collected =>
    match withTenant throws work p tenantId with
    | (p', none) => (p', none)
    | (p', some returned) => forEachTenant throws work rest p' (collected ++ returned)

structure Outcome (D α : Type) extends Progress D α where
  announced : List α

/-- `SlaBreachSweep.run` and `DwellSweep.run`; a throw leaves them before the announcements. -/
def runSweep (throws : Uuid → Bool) (work : D → Uuid → D × List α) (tenants : List Uuid) (d : D) : Outcome D α :=
  let (p, collected) := forEachTenant throws work tenants ⟨d, [], []⟩ []
  ⟨p, collected.getD []⟩

/-- The visits of the tenants that do not throw are all made, and what has been committed is announced, each
item once. -/
structure StaysItsOwn (throws : Uuid → Bool) (tenants : List Uuid) (o : Outcome D α) : Prop where
  others : o.visited.filter (fun t => !throws t) = tenants.filter fun t => !throws t
  announced : o.announced = o.committed

def returnedBy (work : D → Uuid → D × List α) (d : D) : List Uuid → List α
  | [] => []
  | tenantId :: rest => (work d tenantId).2 ++ returnedBy work (work d tenantId).1 rest

private theorem forEachTenant_spec (throws : Uuid → Bool) (work : D → Uuid → D × List α) (tenants : List Uuid) (p : Progress D α) (collected : List α) :
    let o := forEachTenant throws work tenants p collected
    let before := tenants.takeWhile fun t => !throws t
    o.1.visited = p.visited ++ before ++ (tenants.dropWhile fun t => !throws t).take 1 ∧
      o.1.committed = p.committed ++ returnedBy work p.db before ∧
      o.2 = if tenants.dropWhile (fun t => !throws t) = [] then some (collected ++ returnedBy work p.db before) else none := by
  induction tenants generalizing p collected with
  | nil => simp [forEachTenant, returnedBy]
  | cons t rest ih =>
    cases ht : throws t with
    | true => simp [forEachTenant, withTenant, ht, returnedBy]
    | false =>
      obtain ⟨hvisited,hcommitted,hend⟩ := ih
        ⟨(work p.db t).1, p.visited ++ [t], p.committed ++ (work p.db t).2⟩ (collected ++ (work p.db t).2)
      simp only [forEachTenant, withTenant, ht, Bool.false_eq_true, if_false, List.takeWhile_cons, List.dropWhile_cons, Bool.not_false,
        if_true, returnedBy]
      exact ⟨by simpa using hvisited,by simpa using hcommitted,by simpa using hend⟩

/-- One tenant's failure stays its own only if it comes after everything there is to do: no visit throws, or
all visits do from the first one on that does, and those before it have nothing to announce. -/
theorem staysItsOwn_iff (throws : Uuid → Bool) (work : D → Uuid → D × List α) (tenants : List Uuid) (d : D) :
    StaysItsOwn throws tenants (runSweep throws work tenants d) ↔
      (∀ t ∈ tenants, throws t = false) ∨
      (∀ t ∈ tenants.dropWhile fun t => !throws t, throws t = true) ∧
        returnedBy work d (tenants.takeWhile fun t => !throws t) = [] := by
  obtain ⟨hvisited,hcommitted,hend⟩ := forEachTenant_spec throws work tenants ⟨d, [], []⟩ []
  have hbefore : (tenants.takeWhile fun t => !throws t).filter (fun t => !throws t) = tenants.takeWhile fun t => !throws t :=
    List.filter_eq_self.mpr fun t ht => List.mem_takeWhile_imp (p := fun t => !throws t) ht
  have hall : tenants.filter (fun t => !throws t) =
      (tenants.takeWhile fun t => !throws t) ++ (tenants.dropWhile fun t => !throws t).filter fun t => !throws t := by
    conv_lhs => rw [← List.takeWhile_append_dropWhile (p := fun t => !throws t) (l := tenants)]
    rw [List.filter_append, hbefore]
  have hnone : (∀ t ∈ tenants, throws t = false) ↔ tenants.dropWhile (fun t => !throws t) = [] := by
    rw [List.dropWhile_eq_nil_iff]
    simp
  rw [hnone]
  cases hafter : tenants.dropWhile fun t => !throws t with
  | nil =>
    rw [hafter] at hvisited hend hall
    simp only [List.nil_append, List.take_nil, List.append_nil, if_true, List.filter_nil] at hvisited hcommitted hend hall
    refine ⟨fun _ => .inl rfl,fun _ => ⟨?_,?_⟩⟩
    · simp only [runSweep]
      rw [hvisited, hall, hbefore]
    · simp only [runSweep, hend]
      exact hcommitted.symm
  | cons t rest =>
    have hthrows : throws t = true := by
      have hhead := List.head?_dropWhile_not (fun t => !throws t) tenants
      rw [hafter] at hhead
      simpa using hhead
    rw [hafter] at hvisited hend hall
    simp only [List.nil_append, List.take_succ_cons, List.take_zero, reduceCtorEq, if_false] at hvisited hcommitted hend
    simp only [reduceCtorEq, false_or]
    have hothers : (runSweep throws work tenants d).visited.filter (fun t => !throws t) = (tenants.takeWhile fun t => !throws t) := by
      simp only [runSweep]
      rw [hvisited, List.filter_append, hbefore]
      simp [hthrows]
    constructor
    · rintro ⟨hvisits,hannounced⟩
      rw [hothers, hall, List.self_eq_append_right] at hvisits
      refine ⟨fun t' ht' => ?_,?_⟩
      · simpa using List.filter_eq_nil_iff.mp hvisits t' ht'
      · simp only [runSweep, hend] at hannounced
        exact (hannounced.trans hcommitted).symm
    · rintro ⟨hfail,hnothing⟩
      refine ⟨?_,?_⟩
      · rw [hothers, hall, List.self_eq_append_right]
        exact List.filter_eq_nil_iff.mpr fun t' ht' => by simp [hfail t' ht']
      · simp only [runSweep, hend]
        rw [hcommitted, hnothing]
        rfl

end Loop

def latchWork (targets : Targets) (turns : Nat) (d : Desk Unit) (tenantId : Uuid) : Desk Unit × List Breach :=
  match Chronicle.sweepNow d tenantId targets turns with
  | some (d', .ok breaches) => (d', breaches)
  | _ => (d, [])

private def twoTenants : List Act :=
  [.deed 1 .system .contact 9, .deed 1 (.user 4) (.create ⟨"printer", 0, .portal, none, none⟩) 9, .deed 3 .system .contact 9,
    .deed 3 (.user 5) (.create ⟨"scanner", 1, .portal, none, none⟩) 9, .event (.tick 20)]

/-- The visit of the tenant between them throws: the breach of the first is latched and never announced, the
second is not visited. -/
theorem starved_not_staysItsOwn : ∃ s, Run Chronicle.step Always Chronicle.initial twoTenants s ∧
    let o := runSweep (fun t => t = 2) (latchWork (fun _ => some ⟨10, 100⟩) 9) [1, 2, 3] s.desk
    o.visited = [1, 2] ∧ o.committed = [⟨1, 0, .firstResponse, 20⟩] ∧ o.announced = [] ∧
      ¬ StaysItsOwn (fun t => t = 2) [1, 2, 3] o := by
  have hrun : (exec Chronicle.step Always Chronicle.initial twoTenants).any (fun s =>
      let o := runSweep (fun t => t = 2) (latchWork (fun _ => some ⟨10, 100⟩) 9) [1, 2, 3] s.desk
      o.visited = [1, 2] ∧ o.committed = [⟨1, 0, .firstResponse, 20⟩] ∧ o.announced = []) = true := by decide +kernel
  obtain ⟨s,hr,hs⟩ := exec_any hrun
  simp only [decide_eq_true_eq] at hs
  refine ⟨s,hr,hs.1,hs.2.1,hs.2.2,fun h => ?_⟩
  have hlost := h.announced
  rw [hs.2.1, hs.2.2] at hlost
  cases hlost

end Nivara.Sla
