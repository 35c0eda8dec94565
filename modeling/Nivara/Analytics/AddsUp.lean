import Nivara.Analytics.Report
import Nivara.Tickets.Effects
import Nivara.Tickets.TicketService

/-! Whether the groups of a report add up to its total. Each of the two statements partitions the
cohort it sees, but they need not see the same one. -/
namespace Nivara.Analytics
open Transactions Tickets

inductive Figure where
  | cohortSize | deflected | resolved | firstResponseBreached | resolutionBreached
  deriving DecidableEq, Repr

def Figure.counts : Figure → CohortRow → Bool
  | .cohortSize, _ => true
  | .deflected, r => r.deflected
  | .resolved, r => r.resolved
  | .firstResponseBreached, r => r.frBreached
  | .resolutionBreached, r => r.resBreached

def Figure.of : Figure → Metrics → Nat
  | .cohortSize, m => m.cohortSize
  | .deflected, m => m.deflection.count
  | .resolved, m => m.resolution.count
  | .firstResponseBreached, m => m.firstResponseBreach.count
  | .resolutionBreached, m => m.resolutionBreach.count

/-- The groups of a report by `g` add up; `rows` is the cohort its total is taken over. -/
def AddsUp (g : GroupBy) (rows : List CohortRow) (r : AnalyticsReport) : Prop :=
  ∃ groups, r.groups = some groups ∧
    if g = .assignee then (groups.map fun p => p.2.cohortSize).sum = rows.countP agentTouched
    else ∀ f : Figure, (groups.map fun p => f.of p.2).sum = f.of r.overall

def concerns : GroupBy → List (CohortRow → Bool)
  | .assignee => [agentTouched]
  | _ => [Figure.cohortSize, .deflected, .resolved, .firstResponseBreached, .resolutionBreached].map Figure.counts

theorem figure_of_aggregateOf (f : Figure) (key : Option String) (rows : List CohortRow) :
    f.of (toMetrics (aggregateOf key rows)) = rows.countP f.counts := by
  cases f with
  | cohortSize => exact (congrFun List.countP_true rows).symm
  | _ => rfl

/-- The total and the groups of one statement each are counts of its own cohort. -/
private theorem addsUp_iff_counts (L : Locale) {plan : AnalyticsPlan} {g : GroupBy} (rows rows' : List CohortRow) :
    AddsUp g rows (report plan (aggregate L rows none) (some (aggregate L rows' (some g)))) ↔
      ∀ p ∈ concerns g, rows'.countP p = rows.countP p := by
  have hgroups (f : Figure) : (((aggregate L rows' (some g)).map fun row => (row.groupKey.getD "", toMetrics row)).map
      fun p => f.of p.2).sum = (cut g rows').countP f.counts := by
    rw [← Collections.sum_groupBy_countP (groupExpr L · g) (keyOrder L) f.counts]
    simp only [aggregate, List.map_map]
    congr 1
    exact List.map_congr_left fun group _ => figure_of_aggregateOf f _ _
  by_cases hg : g = .assignee
  · subst hg
    have hsize := hgroups .cohortSize
    simp only [Figure.of, cut, List.countP_filter] at hsize
    simp only [AddsUp, concerns, report, if_true, Option.map_some, Option.some.injEq, exists_eq_left', List.mem_singleton,
      forall_eq]
    rw [hsize]
    simp [Figure.counts]
  · have hcut : cut g rows' = rows' := by
      cases g with
      | assignee => exact absurd rfl hg
      | _ => rfl
    have hconcerns : concerns g =
        [Figure.cohortSize, .deflected, .resolved, .firstResponseBreached, .resolutionBreached].map Figure.counts := by
      cases g with
      | assignee => exact absurd rfl hg
      | _ => rfl
    simp only [AddsUp, report, if_neg hg, Option.map_some, Option.some.injEq, exists_eq_left', hgroups, hcut, hconcerns,
      List.forall_mem_map]
    have hoverall (f : Figure) : f.of (toMetrics ((aggregate L rows none).head?.getD emptyRow)) = rows.countP f.counts :=
      figure_of_aggregateOf f none rows
    simp only [hoverall]
    constructor
    · intro h f _
      exact h f
    · intro h f
      exact h f (by cases f <;> simp)

section Tickets
variable {ι : Type} (ctx : TenantContext) (plan : AnalyticsPlan) (d d' : Desk ι)

def counted (p : CohortRow → Bool) (k : Uuid) : Bool := (cohortRow d ctx plan k).any p

/-- As many Tickets come to count between two states of the database as cease to. -/
def Balanced (p : CohortRow → Bool) : Prop :=
  let ks := List.range (max d.tickets.size d'.tickets.size)
  ks.countP (fun k => counted ctx plan d' p k && !counted ctx plan d p k) =
    ks.countP fun k => counted ctx plan d p k && !counted ctx plan d' p k

variable {d d'}

theorem cohortRow_fresh {k : Uuid} (h : d.tickets.size ≤ k) : cohortRow d ctx plan k = none := by
  simp [cohortRow, d.tickets.committed_fresh k h]

/-- The cohort may be counted over more places than the table has. -/
theorem countP_cohort (p : CohortRow → Bool) {n : Nat} (h : d.tickets.size ≤ n) :
    (cohort d ctx plan).countP p = (List.range n).countP (counted ctx plan d p) := by
  obtain ⟨m,rfl⟩ := Nat.exists_eq_add_of_le h
  have hrest : ∀ k ∈ (List.range m).map (d.tickets.size + ·), counted ctx plan d p k ≠ true := by
    intro k hk
    obtain ⟨j,_,rfl⟩ := List.mem_map.mp hk
    simp [counted, cohortRow_fresh ctx plan (Nat.le_add_right d.tickets.size j)]
  have hzero := List.countP_eq_zero.mpr hrest
  rw [List.range_add, List.countP_append, hzero, Nat.add_zero]
  rw [cohort, List.countP_filterMap]
  refine List.countP_congr fun k _ => ?_
  simp only [counted]
  cases cohortRow d ctx plan k <;> rfl

theorem countP_cohort_eq_iff (p : CohortRow → Bool) :
    (cohort d' ctx plan).countP p = (cohort d ctx plan).countP p ↔ Balanced ctx plan d d' p := by
  rw [countP_cohort ctx plan p (Nat.le_max_left d.tickets.size d'.tickets.size),
    countP_cohort ctx plan p (Nat.le_max_right d.tickets.size d'.tickets.size)]
  exact Collections.countP_eq_iff_balanced _ _ _

/-- Where nothing comes to count or ceases to, the counts agree. -/
theorem balanced_of_same {p : CohortRow → Bool} (h : ∀ k, counted ctx plan d' p k = counted ctx plan d p k) :
    Balanced ctx plan d d' p := by
  simp [Balanced, h]

private theorem any_range_iff {R : Type} (t : Table ι R) (p : R → Bool) :
    ((List.range t.size).any fun n => (t.committed n).any p) = true ↔ ∃ n m, t.committed n = some m ∧ p m = true := by
  simp only [List.any_eq_true, List.mem_range, Option.any_eq_true]
  constructor
  · rintro ⟨n,_,m,hm,hp⟩
    exact ⟨n,m,hm,hp⟩
  · rintro ⟨n,m,hm,hp⟩
    exact ⟨n,t.lt_size_of_committed n hm,m,hm,hp⟩

/-- The cohort is about what is committed. -/
theorem cohortRow_of_unchanged (h : d.Unchanged d') : cohortRow d' ctx plan = cohortRow d ctx plan := by
  have hany {R : Type} {t t' : Table ι R} (ht : t'.committed = t.committed) (p : R → Bool) :
      ((List.range t'.size).any fun n => (t'.committed n).any p) = (List.range t.size).any fun n => (t.committed n).any p := by
    rw [Bool.eq_iff_iff, any_range_iff, any_range_iff, ht]
  have htouched (k : Uuid) : touched d' ctx k = touched d ctx k := by
    rw [touched, touched, hany h.messages, hany h.notes]
  funext k
  simp only [cohortRow, htouched, h.tickets]

end Tickets

section Runs
variable {ε α ι : Type} [DecidableEq ι] (L : Locale) (ctx : TenantContext) (plan : AnalyticsPlan)

def commits (x : Session deskLanguage ε α TenantContext Cursor (Work ε α)) : Bool :=
  match x.script with
  | .done _ => !x.aborted
  | _ => false

/-- While the report is between its statements, no commit brings a Ticket into a sum or takes one out. -/
def undisturbed (g : GroupBy) (w : Office ε α ι) : OfficeMove ε α ι → Bool
  | .desk (.advance i) =>
    match w.reading, w.server.sessions i with
    | .halfway _ _, some x => !commits x || (concerns g).all fun p => (List.range w.server.db.tickets.size).all fun k =>
        counted ctx plan (w.server.db.commit i) p k = counted ctx plan w.server.db p k
    | _, _ => true
  | _ => true

private theorem counted_of_undisturbed {g : GroupBy} {w : Office ε α ι} {i : ι} {first : Desk ι}
    {overall : List AggregateRow} {x : Session deskLanguage ε α TenantContext Cursor (Work ε α)} {a : α}
    (h : undisturbed ctx plan g w (.desk (.advance i)) = true) (hr : w.reading = .halfway first overall)
    (hx : w.server.sessions i = some x) (hscript : x.script = .done a) (hl : x.aborted = false) :
    ∀ p ∈ concerns g, ∀ k, counted ctx plan (w.server.db.commit i) p k = counted ctx plan w.server.db p k := by
  intro p hp k
  by_cases hk : k < w.server.db.tickets.size
  · have hcommits : commits x = true := by simp [commits, hscript, hl]
    simp only [undisturbed, hr, hx, hcommits, Bool.not_true, Bool.false_or, List.all_eq_true, List.mem_range,
      decide_eq_true_eq] at h
    exact h p hp k hk
  · have hfresh : w.server.db.tickets.size ≤ k := Nat.not_lt.mp hk
    rw [counted, counted, cohortRow_fresh ctx plan hfresh]
    rw [cohortRow_fresh ctx plan (d := w.server.db.commit i) hfresh]

private def Faithful (w : Office ε α ι) : Prop :=
  match w.reading with
  | .begun => True
  | .halfway first overall => overall = aggregate L (cohort first ctx plan) none
  | .answered first second r => r = report plan (aggregate L (cohort first ctx plan) none)
      (plan.groupBy.map fun g => aggregate L (cohort second ctx plan) (some g))

private theorem Faithful.step {w w' : Office ε α ι} {m : OfficeMove ε α ι} (h : Faithful L ctx plan w)
    (hs : w.step L ctx plan m = some w') : Faithful L ctx plan w' := by
  cases m with
  | desk m =>
    obtain ⟨server,_,rfl⟩ := Option.map_eq_some_iff.mp hs
    exact h
  | next =>
    simp only [Office.step] at hs
    split at hs
    · cases hs
      rfl
    · rename_i first overall hr
      cases hs
      simp only [Faithful, hr] at h ⊢
      rw [h]
    · cases hs

private def Still (g : GroupBy) (w : Office ε α ι) : Prop :=
  match w.reading with
  | .begun => True
  | .halfway first _ => ∀ p ∈ concerns g, ∀ k, counted ctx plan w.server.db p k = counted ctx plan first p k
  | .answered first second _ => ∀ p ∈ concerns g, ∀ k, counted ctx plan second p k = counted ctx plan first p k

private theorem Still.step {g : GroupBy} {w w' : Office ε α ι} {m : OfficeMove ε α ι} (h : Still ctx plan g w)
    (hok : undisturbed ctx plan g w m = true) (hs : w.step L ctx plan m = some w') : Still ctx plan g w' := by
  cases m with
  | desk m =>
    obtain ⟨server,hserver,rfl⟩ := Option.map_eq_some_iff.mp hs
    cases hr : w.reading with
    | begun => simp only [Still]
    | answered first second r => simpa only [Still, hr] using h
    | halfway first overall =>
      simp only [Still, hr] at h ⊢
      rcases committed_of_step hserver with ⟨_,hsame⟩ | ⟨i,x,a,rfl,hx,hscript,hl,hdb,_⟩
      · intro p hp k
        rw [counted, cohortRow_of_unchanged ctx plan hsame]
        exact h p hp k
      · intro p hp k
        rw [hdb, counted_of_undisturbed ctx plan hok hr hx hscript hl p hp k]
        exact h p hp k
  | next =>
    simp only [Office.step] at hs
    split at hs
    · cases hs
      exact fun p _ k => rfl
    · rename_i first overall hr
      cases hs
      simpa only [Still, hr] using h
    · cases hs

/-- Whatever the desk does while a report is under way, the groups add up iff for each sum as many
Tickets come to count between the two statements as cease to. They do if no commit in between moves
a Ticket into or out of a sum. -/
theorem report_addsUp_iff_balanced {g : GroupBy} (hg : plan.groupBy = some g) {acts : List (OfficeMove ε α ι)}
    {w : Office ε α ι} {first second : Desk ι} {r : AnalyticsReport}
    (hr : Run (Office.step L ctx plan) Always (Office.initial : Office ε α ι) acts w)
    (hw : w.reading = .answered first second r) :
    (AddsUp g (cohort first ctx plan) r ↔ ∀ p ∈ concerns g, Balanced ctx plan first second p) ∧
      (Run (Office.step L ctx plan) (fun w m => undisturbed ctx plan g w m = true) (Office.initial : Office ε α ι) acts w →
        AddsUp g (cohort first ctx plan) r) := by
  have hfaithful : Faithful L ctx plan w := hr.invariant trivial fun _ _ _ h _ hs => Faithful.step L ctx plan h hs
  simp only [Faithful, hw, hg, Option.map_some] at hfaithful
  have hiff : AddsUp g (cohort first ctx plan) r ↔ ∀ p ∈ concerns g, Balanced ctx plan first second p := by
    rw [hfaithful, addsUp_iff_counts]
    simp only [countP_cohort_eq_iff]
  refine ⟨hiff,fun hq => ?_⟩
  have hstill : Still ctx plan g w := hq.invariant trivial fun _ _ _ h hok hs => Still.step L ctx plan h hok hs
  simp only [Still, hw] at hstill
  exact hiff.mpr fun p hp => balanced_of_same ctx plan fun k => hstill p hp k

end Runs

private def opening : Work Failure Unit where
  tenantId := 1
  actor := .system
  script := do
    let c ← Tx.run .insertContact .sql
    let _ ← createIn 1 ⟨"printer", c, .portal, none, none⟩ 5
    pure ()

private def lastDay (g : GroupBy) : AnalyticsPlan := ⟨0, 10, some g⟩

private def admin : TenantContext := ⟨1, .user 3, 9⟩

private def plainText : Locale := ⟨fun id => toString id, fun a b => a ≤ b⟩

private def sizes (w : Office Failure Unit Bool) : Option (List Nat × Nat) :=
  match w.reading with
  | .answered _ _ r => r.groups.map fun groups => (groups.map fun p => p.2.cohortSize, r.overall.cohortSize)
  | _ => none

private def interrupted : List (OfficeMove Failure Unit Bool) :=
  OfficeMove.desk (.begin true opening) :: List.replicate 6 (OfficeMove.desk (.advance true)) ++ [OfficeMove.next, .desk (.advance true), .next]

theorem report_misses_its_total : ¬ ∀ (L : Locale) (ctx : TenantContext) (plan : AnalyticsPlan) (g : GroupBy)
    (acts : List (OfficeMove Failure Unit Bool)) (w : Office Failure Unit Bool) (first second : Desk Bool)
    (r : AnalyticsReport), plan.groupBy = some g →
    Run (Office.step L ctx plan) Always (Office.initial : Office Failure Unit Bool) acts w →
    w.reading = .answered first second r → AddsUp g (cohort first ctx plan) r := by
  intro h
  have hrun : (exec (Office.step plainText admin (lastDay .priority)) Always (Office.initial : Office Failure Unit Bool)
      interrupted).any (fun w => sizes w = some ([1], 0)) = true := by
    decide +kernel
  obtain ⟨w,hw,hp⟩ := exec_any hrun
  have hsizes := of_decide_eq_true hp
  unfold sizes at hsizes
  split at hsizes
  · rename_i first second r hr
    obtain ⟨groups,hg,hall⟩ := h plainText admin (lastDay .priority) .priority _ w first second r rfl hw hr
    have hsum := hall .cohortSize
    simp only [hg, Option.map_some, Option.some.injEq, Prod.mk.injEq] at hsizes
    simp only [Figure.of, hsizes.1, hsizes.2] at hsum
    cases hsum
  · cases hsizes

private def elsewhere : Work Failure Unit where
  tenantId := 2
  actor := .system
  script := do
    let c ← Tx.run .insertContact .sql
    let _ ← createIn 2 ⟨"router", c, .portal, none, none⟩ 6
    pure ()

private def apart : List (OfficeMove Failure Unit Bool) :=
  OfficeMove.desk (.begin true opening) :: List.replicate 7 (OfficeMove.desk (.advance true)) ++ OfficeMove.desk (.begin true elsewhere) ::
    List.replicate 6 (OfficeMove.desk (.advance true)) ++ [OfficeMove.next, .desk (.advance true), .next]

theorem report_addsUp_of_apart : ∃ (w : Office Failure Unit Bool) (first second : Desk Bool) (r : AnalyticsReport),
    sizes w = some ([1], 1) ∧ w.reading = .answered first second r ∧
      AddsUp .priority (cohort first admin (lastDay .priority)) r := by
  have hrun : (exec (Office.step plainText admin (lastDay .priority))
      (fun w m => undisturbed admin (lastDay .priority) .priority w m = true)
      (Office.initial : Office Failure Unit Bool) apart).any (fun w => sizes w = some ([1], 1)) = true := by
    decide +kernel
  obtain ⟨w,hw,hp⟩ := exec_any hrun
  have hsizes := of_decide_eq_true hp
  cases hr : w.reading with
  | answered first second r =>
    exact ⟨w,first,second,r,hsizes,hr,
      (report_addsUp_iff_balanced plainText admin (lastDay .priority) rfl (hw.mono fun _ _ _ => trivial) hr).2 hw⟩
  | begun => simp [sizes, hr] at hsizes
  | halfway first overall => simp [sizes, hr] at hsizes

end Nivara.Analytics
