import Nivara.Sla.BreachSweep
import Nivara.Tickets.Conversation
import Nivara.Tickets.Locks

/-! A breach fires once. The latches are set once, and whoever has recorded a breach holds the
Ticket's row; but a sweep takes a latch for its own by its instant, so that another sweep of the
same instant has its breaches recorded and announced again. -/
namespace Nivara.Sla
open Transactions Tickets

def breachOf (e : AuditEntry) : Option (Uuid × SlaTimer) :=
  if e.action = .slaBreached then e.kind.map (e.ticketId, ·) else none

def breachesIn (log : List AuditEntry) : List (Uuid × SlaTimer) := log.filterMap breachOf

def latchOf (r : Ticket) : SlaTimer → Option Int
  | .firstResponse => r.firstResponseBreachedAt
  | .resolution => r.resolutionBreachedAt

structure FiresOnce (b : Register) : Prop where
  once : (breachesIn b.audit).Nodup
  latched : ∀ x ∈ breachesIn b.audit, ∃ r, b.tickets x.1 = some r ∧ (latchOf r x.2).isSome = true

section Registers
variable {b : Register} {n k : Uuid}

theorem breachesIn_append (l l' : List AuditEntry) : breachesIn (l ++ l') = breachesIn l ++ breachesIn l' :=
  List.filterMap_append

theorem breachesIn_auditTrail {now : Int} {old new : Ticket} : breachesIn (auditTrail k now old new) = [] := by
  refine List.filterMap_eq_nil_iff.mpr fun e he => ?_
  simp only [auditTrail, auditOf, List.mem_append] at he
  rcases he with (he | he) | he
  all_goals
    split at he
    · cases he
    · rw [List.mem_singleton.mp he]
      rfl

theorem latchOf_evolves {r r' : Ticket} (h : Evolves r r') {t : SlaTimer} (ht : (latchOf r t).isSome = true) :
    (latchOf r' t).isSome = true := by
  cases t with
  | firstResponse => rwa [latchOf, h.firstResponseBreached ht]
  | resolution => rwa [latchOf, h.resolutionBreached ht]

/-- A change that records no breach leaves the breaches in the log. -/
theorem breachesIn_apply {change : Change} (hlaw : b.Lawful n change)
    (hrec : ∀ k t at', change ≠ .recorded k (.breached t) at') : breachesIn (b.apply change).audit = breachesIn b.audit := by
  cases hlaw with
  | stored _ _ henf _ =>
    rw [Register.apply, breachesIn_append, (enforced_of_ok henf).audit, breachesIn_auditTrail, List.append_nil]
  | opened _ _ _ _ => rfl
  | @recorded k entry t _ =>
    cases entry with
    | breached timer => exact absurd rfl (hrec k timer t)
    | created state =>
      rw [Register.apply, breachesIn_append]
      exact List.append_nil _

theorem FiresOnce.apply {change : Change} (h : FiresOnce b) (hlaw : b.Lawful n change)
    (hrec : ∀ k t at', change ≠ .recorded k (.breached t) at') : FiresOnce (b.apply change) := by
  have hsame := breachesIn_apply hlaw hrec
  refine ⟨by rw [hsame]; exact h.once,fun x hx => ?_⟩
  rw [hsame] at hx
  obtain ⟨s,hs,hlatch⟩ := h.latched x hx
  cases hlaw with
  | @stored k now old new r entries hfound hlink henf hten =>
    by_cases hk : x.1 = k
    · subst hk
      cases hfound.symm.trans hs
      exact ⟨r,by simp [Register.apply],latchOf_evolves (evolves_of_enforced hlink henf hten) hlatch⟩
    · exact ⟨s,by simp [Register.apply, hk, hs],hlatch⟩
  | opened hfresh _ _ _ =>
    have hne : x.1 ≠ n := Nat.ne_of_lt (hfresh x.1 s hs)
    exact ⟨s,by simp [Register.apply, hne, hs],hlatch⟩
  | recorded _ => exact ⟨s,hs,hlatch⟩

/-- A breach is recorded that is not in the log yet. -/
theorem FiresOnce.record {timer : SlaTimer} {at' : Int} {r : Ticket} (h : FiresOnce b) (hr : b.tickets k = some r)
    (hlatch : (latchOf r timer).isSome = true) (hnew : (k, timer) ∉ breachesIn b.audit) :
    FiresOnce (b.apply (.recorded k (.breached timer) at')) := by
  have hmore : breachesIn (b.apply (.recorded k (.breached timer) at')).audit = breachesIn b.audit ++ [(k, timer)] := by
    rw [Register.apply, breachesIn_append]
    rfl
  refine ⟨?_,fun x hx => ?_⟩
  · rw [hmore]
    refine List.nodup_append.mpr ⟨h.once,List.nodup_singleton _,fun x hx y hy => ?_⟩
    rintro rfl
    rw [List.mem_singleton.mp hy] at hx
    exact hnew hx
  · rw [hmore] at hx
    rcases List.mem_append.mp hx with hx | hx
    · exact h.latched x hx
    · rw [List.mem_singleton.mp hx]
      exact ⟨r,hr,hlatch⟩

end Registers

variable {ι : Type} [DecidableEq ι] {d d' : Desk ι} {i j : ι} {ctx : TenantContext} {k : Uuid} {timer : SlaTimer}

structure Sealed (d : Desk ι) : Prop where
  coherent : d.Coherent
  locked : d.Locked fun e => e.action = .slaBreached
  fires : ∀ S, FiresOnce (d.register S)

/-- Transaction `i` holds the Ticket with the latch set, and nobody has recorded the breach. -/
def Unrecorded (d : Desk ι) (i : ι) (k : Uuid) (timer : SlaTimer) : Prop :=
  (∃ r, d.tickets.own i k = some r ∧ (latchOf r timer).isSome = true) ∧
    (k, timer) ∉ breachesIn (d.audit.scan fun j => j = i)

private theorem free_of_own {r : Ticket} (h : d.tickets.own i k = some r) : d.tickets.free i [k] = true := by
  refine (Table.free_iff _ _ _).mpr fun k' hk j s hp => ?_
  rw [List.mem_singleton.mp hk] at hp
  cases ((Table.own_eq_some_iff _ _ _).mp h).symm.trans hp
  rfl

/-- Views that agree on the holder of a Ticket have the same breaches of it. -/
theorem Sealed.trail (h : Sealed d) (hf : d.tickets.free i [k] = true) (S S' : ι → Bool) (hi : S i = S' i) :
    (k, timer) ∈ breachesIn (d.audit.scan S) ↔ (k, timer) ∈ breachesIn (d.audit.scan S') := by
  have hmem : ∀ l : List AuditEntry, (k, timer) ∈ breachesIn l ↔
      (k, timer) ∈ breachesIn (l.filter fun e => decide (e.action = .slaBreached) && decide (e.ticketId = k)) := by
    intro l
    simp only [breachesIn, List.mem_filterMap, List.mem_filter]
    refine ⟨fun ⟨e,he,hb⟩ => ⟨e,⟨he,?_⟩,hb⟩,fun ⟨e,⟨he,_⟩,hb⟩ => ⟨e,he,hb⟩⟩
    obtain ⟨hact,hkey⟩ := Option.ite_none_right_eq_some.mp hb
    obtain ⟨_,_,hk⟩ := Option.map_eq_some_iff.mp hkey
    cases hk
    simp [hact]
  rw [hmem, hmem (d.audit.scan S'), h.locked.trail hf S S' hi _ (by simp)]

theorem sealed_of_change {known : Desk ι → ι → TenantContext → Stmt → Cursor → Prop} (h : Sealed d)
    (hc : Changes (deskEngine ι) Desk.world known d d')
    (hrec : ∀ i ctx k timer at' c, known d i ctx (.record k (.breached timer) at') c → Unrecorded d i k timer) : Sealed d' := by
  obtain ⟨⟨hcoh,_⟩,hmove⟩ := registers_of_change h.coherent hc
  have hlocked := locked_of_change h.locked hc fun i ctx k entry t c hk hp => by
    cases entry with
    | created state => cases hp
    | breached timer =>
      obtain ⟨⟨r,hr,_⟩,_⟩ := hrec i ctx k timer t c hk
      exact ⟨r,hr⟩
  refine ⟨hcoh,hlocked,fun S => ?_⟩
  rcases hmove with ⟨f,hf⟩ | ⟨i,ctx,q,c,change,hknown,hissues,hmakes⟩
  · rw [hf]
    exact h.fires _
  · cases hi : S i with
    | false =>
      rw [hmakes.outside S hi]
      exact h.fires S
    | true =>
      rw [hmakes.inside S hi]
      by_cases hbreach : ∃ k timer at', change = .recorded k (.breached timer) at'
      · obtain ⟨k,timer,at',rfl⟩ := hbreach
        cases hissues
        obtain ⟨⟨r,hr,hlatch⟩,hnew⟩ := hrec i ctx k timer at' c hknown
        have hf := free_of_own hr
        refine (h.fires S).record ((Table.view_of_free _ S k hf hi).trans (Table.visible_of_own _ _ _ hr)) hlatch fun hmem => ?_
        exact hnew ((h.trail hf S (fun j => j = i) (by simpa using hi)).mp hmem)
      · exact (h.fires S).apply (hmakes.lawful S hi) fun k t at' he => hbreach ⟨k,t,at',he⟩

theorem sealed_empty : Sealed (Desk.empty : Desk ι) :=
  ⟨coherent_empty,locked_empty,fun _ => ⟨List.nodup_nil,fun _ hx => (by cases hx)⟩⟩

/-- What the other transactions leave to transaction `i`: its Tickets, and the breaches of these in the
views that have none of the others. -/
structure Yields (i : ι) (d d' : Desk ι) : Prop where
  tickets : ∀ k, d'.tickets.own i k = d.tickets.own i k
  trail : ∀ k r timer S, d.tickets.own i k = some r → (∀ j, j ≠ i → S j = false) →
    ((k, timer) ∈ breachesIn (d'.audit.scan S) ↔ (k, timer) ∈ breachesIn (d.audit.scan S))

private theorem yields_of_effect {q : Stmt} {c : Cursor} (h : Sealed d) (he : Effect d i ctx q c d') (hj : j ≠ i) :
    Yields j d d' := by
  refine ⟨(own_of_effect he hj).1,fun k r timer S _ hS => ?_⟩
  have hsame : d'.register S = d.register S := by
    rcases makes_of_effect h.coherent he with hsame | ⟨change,_,hm⟩
    · exact hsame S
    · exact hm.outside S (hS i (Ne.symm hj))
  rw [← Desk.register_audit, hsame, Desk.register_audit]

private theorem yields_commit (h : Sealed d) (hj : j ≠ i) : Yields j d (d.commit i) where
  tickets _ := Table.own_commit_other _ _ _ _ hj
  trail k r timer S hr hS := by
    rw [Desk.commit, Table.scan_commit]
    exact h.trail (free_of_own hr) _ _ (by simp [hj])

private theorem yields_rollback (h : Sealed d) (hj : j ≠ i) : Yields j d (d.rollback i) where
  tickets _ := Table.own_rollback_other _ _ _ _ hj
  trail k r timer S hr hS := by
    rw [Desk.rollback, Table.scan_rollback]
    exact h.trail (free_of_own hr) _ _ (by simp [hj])

private theorem yields_world {w : Event} (hw : d.world w = some d') : Yields j d d' := by
  obtain ⟨clock,users,rfl⟩ := Desk.of_world hw
  exact ⟨fun _ => rfl,fun _ _ _ _ _ _ => Iff.rfl⟩

def recordsBreach : Stmt → Bool
  | .record _ (.breached _) _ => true
  | _ => false

/-- The transactions that run beside one another: sweeps of a tenant at any instants and with any
targets, and any transactions that record no breach. -/
inductive Request where
  | sweep (tenantId : Uuid) (targets : Targets) (now at' : Int)
  | other (work : Work Failure (List Breach)) (quiet : work.script.Only fun q => recordsBreach q = false)

def Request.context (d : Desk ι) : Request → TenantContext
  | .sweep tenantId _ _ _ => ⟨tenantId, .system, d.clock⟩
  | .other work _ => (workService ι _ _).context d work

def Request.script : Request → Tx (List Breach)
  | .sweep tenantId targets now at' => latchTenant tenantId targets now at'
  | .other work _ => work.script

def requestService (ι : Type) : Service deskLanguage Failure (List Breach) TenantContext (Desk ι) Request where
  context := Request.context
  script := Request.script

def Breach.about (b : Breach) : Uuid × SlaTimer := (b.ticketId, b.timer)

/-- What `run` announces, by Ticket and timer: the breaches of the sweeps that have committed. -/
def announcements (answers : List (Request × List Breach)) : List (Uuid × SlaTimer) :=
  answers.flatMap fun a =>
    match a.1 with
    | .sweep _ _ _ _ => a.2.map Breach.about
    | .other _ _ => []

/-- When a sweep comes to a row, neither latch of the row holds the instant of the sweep. -/
def sweepTerms (ι : Type) [DecidableEq ι] : Terms (deskEngine ι) (List Breach) Request where
  begin _ _ := true
  resume d i req ctx q c :=
    match req, q, c with
    | .sweep _ _ now _, .updateTickets _, ((k, _) :: _, _) =>
      (d.sees i ctx k).all fun r => r.firstResponseBreachedAt ≠ some now ∧ r.resolutionBreachedAt ≠ some now
    | _, _, _ => true
  commit _ _ _ _ _ := true

/-- What is to hold when a sweep commits: what it is going to announce is in the log, by itself. -/
def Announces (i : ι) (req : Request) (a : List Breach) (d : Desk ι) : Prop :=
  match req with
  | .sweep _ _ _ _ => (a.map Breach.about).Nodup ∧ ∀ b ∈ a,
      b.about ∈ breachesIn (d.audit.scan fun j => j = i) ∧ b.about ∉ breachesIn (d.audit.scan fun _ => false)
  | .other _ _ => True

def sweepRegime : Regime (deskEngine ι) (List Breach) Request Event Desk.world where
  terms := sweepTerms ι
  inv := Sealed
  rely := Yields
  idle _ _ := True
  post i req _ a d := Announces i req a d
  inv_rollback d i h := by
    have hc : Changes (deskEngine ι) Desk.world (fun _ _ _ _ _ => False) d (d.rollback i) := .rollback i
    exact sealed_of_change h hc fun _ _ _ _ _ _ hk => hk.elim
  inv_world d w d' h hw := by
    have hc : Changes (deskEngine ι) Desk.world (fun _ _ _ _ _ => False) d d' := .world hw
    exact sealed_of_change h hc fun _ _ _ _ _ _ hk => hk.elim
  idle_commit _ _ := trivial
  idle_rollback _ _ := trivial
  idle_stable _ _ _ _ _ := trivial
  rely_refl _ _ := ⟨fun _ => rfl,fun _ _ _ _ _ _ => Iff.rfl⟩
  rely_commit _ _ _ _ _ _ hj h _ _ := yields_commit h hj
  rely_rollback _ _ _ hj h := yields_rollback h hj
  rely_more _ _ _ _ _ _ _ _ hj h ht := yields_of_effect h (effect_of_more ht) hj
  rely_answer _ _ _ _ _ _ _ _ hj h ht := yields_of_effect h (effect_of_answer ht) hj
  rely_world _ _ _ _ _ hw := yields_world hw

/-- The breach is to be recorded by `i`, which holds the latched Ticket, and is in the log neither of
what is committed nor of `i` itself. -/
def Owed (i : ι) (x : Uuid × SlaTimer) (d : Desk ι) : Prop :=
  Unrecorded d i x.1 x.2 ∧ x ∉ breachesIn (d.audit.scan fun _ => false)

def Paid (i : ι) (x : Uuid × SlaTimer) (d : Desk ι) : Prop :=
  (∃ r, d.tickets.own i x.1 = some r) ∧ x ∈ breachesIn (d.audit.scan fun j => j = i) ∧
    x ∉ breachesIn (d.audit.scan fun _ => false)

section Outline
variable {targets : Targets} {now at' : Int} {req : Request} {x y : Uuid × SlaTimer}

private theorem stable_owed : (sweepRegime (ι := ι)).Stable i (Owed i x) := by
  rintro d d' _ _ hy ⟨⟨⟨r,hr,hlatch⟩,hnew⟩,hold⟩
  refine ⟨⟨⟨r,(hy.tickets x.1).trans hr,hlatch⟩,fun hmem => hnew ?_⟩,fun hmem => hold ?_⟩
  · exact (hy.trail x.1 r x.2 _ hr (fun j hj => by simp [hj])).mp hmem
  · exact (hy.trail x.1 r x.2 _ hr (fun _ _ => rfl)).mp hmem

private theorem stable_paid : (sweepRegime (ι := ι)).Stable i (Paid i x) := by
  rintro d d' _ _ hy ⟨⟨r,hr⟩,hin,hold⟩
  refine ⟨⟨r,(hy.tickets x.1).trans hr⟩,?_,fun hmem => hold ?_⟩
  · exact (hy.trail x.1 r x.2 _ hr (fun j hj => by simp [hj])).mpr hin
  · exact (hy.trail x.1 r x.2 _ hr (fun _ _ => rfl)).mp hmem

private theorem stable_all {P : Uuid × SlaTimer → Desk ι → Prop} (hP : ∀ x, (sweepRegime (ι := ι)).Stable i (P x))
    (l : List (Uuid × SlaTimer)) : (sweepRegime (ι := ι)).Stable i fun d => ∀ x ∈ l, P x d :=
  fun d d' hd hd' hr h x hx => hP x d d' hd hd' hr (h x hx)

/-- A latch that is not in the log is not set, or the other way round: with the latch null the breach
is in no view of `i`'s. -/
private theorem absent_of_unlatched {r : Ticket} (h : Sealed d) (hs : d.tickets.visible i k = some r)
    (hnull : latchOf r timer = none) : (k, timer) ∉ breachesIn (d.audit.scan fun j => j = i) ∧
      (k, timer) ∉ breachesIn (d.audit.scan fun _ => false) := by
  refine ⟨fun hmem => ?_,fun hmem => ?_⟩
  · obtain ⟨r',hr',hlatch⟩ := (h.fires fun j => j = i).latched _ hmem
    rw [Desk.register_tickets, ← Table.visible_eq_view, hs] at hr'
    cases hr'
    simp [hnull] at hlatch
  · obtain ⟨r',hr',hlatch⟩ := (h.fires fun _ => false).latched _ hmem
    rw [Desk.register_tickets, Table.view_none] at hr'
    have := latchOf_evolves (h.coherent.visible Evolves.refl hr' hs) hlatch
    simp [hnull] at this

private theorem sealed_of_turn {q : Stmt} {c : Cursor} (h : Sealed d)
    (hc : Changes (deskEngine ι) Desk.world (fun _ _ _ q' c' => q' = q ∧ c' = c) d d') (hq : recordsBreach q = false) :
    Sealed d' := by
  refine sealed_of_change h hc fun j ctx k timer t c' hk => ?_
  obtain ⟨rfl,_⟩ := hk
  cases hq

/-- A statement that records no breach leaves the breaches in every view. -/
private theorem breachesIn_of_effect {q : Stmt} {c : Cursor} (h : Sealed d) (he : Effect d i ctx q c d')
    (hq : recordsBreach q = false) (S : ι → Bool) : breachesIn (d'.audit.scan S) = breachesIn (d.audit.scan S) := by
  rw [← Desk.register_audit, ← Desk.register_audit]
  rcases makes_of_effect h.coherent he with hsame | ⟨change,hissues,hm⟩
  · rw [hsame S]
  · cases hi : S i with
    | false => rw [hm.outside S hi]
    | true =>
      rw [hm.inside S hi]
      refine breachesIn_apply (hm.lawful S hi) fun k t at' hch => ?_
      subst hch
      cases hissues
      cases hq

/-- The rows that the `UPDATE` of a sweep has written owe what was latched in them. -/
structure Latching (i : ι) (now : Int) (c : Cursor) (d : Desk ι) : Prop where
  distinct : (c.1.map Prod.fst ++ c.2.map Prod.fst).Nodup
  owed : ∀ p ∈ c.2, ∀ timer ∈ latchedTimers p.2 now, Owed i (p.1, timer) d

private theorem stable_latching {c : Cursor} : (sweepRegime (ι := ι)).Stable i (Latching i now c) :=
  fun d d' hd hd' hr h => ⟨h.distinct,fun p hp timer ht => stable_owed d d' hd hd' hr (h.owed p hp timer ht)⟩

theorem mem_latchedTimers {r : Ticket} : timer ∈ latchedTimers r now ↔ latchOf r timer = some now := by
  unfold latchedTimers
  cases timer with
  | firstResponse =>
    split <;> split <;> simp_all [latchOf]
  | resolution =>
    split <;> split <;> simp_all [latchOf]

/-- A latch that holds the instant of the sweep, and did not before, was null. -/
private theorem unlatched_of_enforced {old new r : Ticket} {entries : List AuditEntry} {t : Int}
    (henf : Enforced k t old new r entries) (hnew : latchOf r timer = some now) (hold : latchOf old timer ≠ some now) :
    latchOf old timer = none := by
  have honce : ∃ w, latchOf r timer = setOnce (latchOf old timer) w := by
    cases timer with
    | firstResponse => exact ⟨_,henf.firstResponseBreached⟩
    | resolution => exact ⟨_,henf.resolutionBreached⟩
  obtain ⟨w,hw⟩ := honce
  cases ho : latchOf old timer with
  | none => rfl
  | some t =>
    rw [ho] at hw
    exact absurd (ho.trans (hw.symm.trans hnew)) hold

private theorem latching_stored (plan : Uuid → Ticket → Option (Ticket → Option Ticket)) {set : Ticket → Option Ticket}
    {rest : List (Uuid × (Ticket → Option Ticket))} {written : List (Uuid × Ticket)} {old new r : Ticket}
    (hd : Sealed d) (h : Latching i now ((k, set) :: rest, written) d) (hf : d.tickets.free i [k] = true)
    (hs : d.sees i ctx k = some old) (hset : set old = some new) (hst : Stored d i ctx k old new d' r)
    (hterm : ∀ timer, latchOf old timer ≠ some now) : Latching i now (rest, written ++ [(k, r)]) d' := by
  have hvis := (Desk.sees_some.mp hs).1
  have he : Effect d i ctx (.updateTickets plan) ((k, set) :: rest, written) d' := .updated hf hs hset hst
  have hlog := breachesIn_of_effect hd he rfl
  obtain ⟨entries,henf,rfl⟩ := hst.enforced
  have hdist := h.distinct
  simp only [List.map_cons, List.cons_append, List.nodup_cons, List.mem_append, not_or] at hdist
  refine ⟨?_,fun p hp timer ht => ?_⟩
  · rw [List.map_append, List.map_singleton, ← List.append_assoc]
    refine List.nodup_append_comm.mp (List.nodup_cons.mpr ⟨?_,hdist.2⟩)
    simpa using hdist.1
  · rcases List.mem_append.mp hp with hp | hp
    · -- a row written before is another one
      have hne : p.1 ≠ k := fun heq => hdist.1.2 (heq ▸ List.mem_map_of_mem hp)
      obtain ⟨⟨⟨s,hs',hlatch⟩,hnew⟩,hold⟩ := h.owed p hp timer ht
      refine ⟨⟨⟨s,?_,hlatch⟩,by rw [hlog]; exact hnew⟩,by rw [hlog]; exact hold⟩
      rw [Table.own_write_self, if_neg (by simpa using hne)]
      exact hs'
    · rw [List.mem_singleton.mp hp] at ht ⊢
      have hlatch := mem_latchedTimers.mp ht
      obtain ⟨hnew,hold⟩ := absent_of_unlatched hd hvis (unlatched_of_enforced (enforced_of_ok henf) hlatch (hterm timer))
      refine ⟨⟨⟨r,Table.own_write_picked _ _ _ (by simp) hvis rfl,by rw [hlatch]; rfl⟩,?_⟩,?_⟩
      · rw [hlog]
        exact hnew
      · rw [hlog]
        exact hold

private theorem leads_update {tenantId : Uuid} :
    (sweepRegime (ι := ι)).Leads i (.sweep tenantId targets now at') ctx (Tx.run (.updateTickets (due targets now)) .sql)
      (fun _ => True) fun rows d => Latching i now ([], rows) d := by
  refine Regime.leads_guarded (A := Latching i now) (fun _ => stable_latching) (fun _ => stable_latching) ?_ ?_ ?_
  · intro d _ _
    refine ⟨?_,fun p hp => (by cases hp)⟩
    have hpicked : ((d.picked i ctx (due targets now)).map Prod.fst ++ []).Nodup := by
      rw [List.append_nil]
      exact Desk.picked_nodup
    exact hpicked
  · intro d c d' c' hd hA hterm ht
    have hinv : Sealed d' := sealed_of_turn hd (.more ⟨rfl,rfl⟩ ht) rfl
    obtain ⟨k,set,rest,written,rfl,hf,⟨rfl,rfl⟩ | ⟨old,new,r,hs,hset,hst,rfl⟩⟩ := Desk.updated_of_more ht
    · have hdist := hA.distinct
      simp only [List.map_cons, List.cons_append, List.nodup_cons] at hdist
      exact ⟨hinv,hdist.2,hA.owed⟩
    · refine ⟨hinv,latching_stored (due targets now) hd hA hf hs hset hst fun timer => ?_⟩
      simp only [sweepRegime, sweepTerms, hs, Option.all_some, decide_eq_true_eq] at hterm
      cases timer with
      | firstResponse => exact hterm.1
      | resolution => exact hterm.2
  · intro d c d' rows hd hA _ ht
    obtain ⟨rfl,rfl⟩ := Desk.updated_of_answer ht
    exact ⟨hd,hA⟩

structure Recording (i : ι) (todo done : List (Uuid × SlaTimer)) (d : Desk ι) : Prop where
  distinct : (todo ++ done).Nodup
  owed : ∀ x ∈ todo, Owed i x d
  paid : ∀ x ∈ done, Paid i x d

private theorem stable_recording {todo done : List (Uuid × SlaTimer)} :
    (sweepRegime (ι := ι)).Stable i (Recording i todo done) :=
  fun d d' hd hd' hr h => ⟨h.distinct,stable_all (fun _ => stable_owed) todo d d' hd hd' hr h.owed,
    stable_all (fun _ => stable_paid) done d d' hd hd' hr h.paid⟩

private theorem recording_insert {todo done : List (Uuid × SlaTimer)} (h : Recording i (x :: todo) done d) :
    Recording i todo (done ++ [x]) { d with audit := d.audit.insert i (Recorded.entry x.1 at' (.breached x.2)) } := by
  have hmine : ∀ y, y ∈ breachesIn ((d.audit.insert i (Recorded.entry x.1 at' (.breached x.2))).scan fun j => j = i) ↔
      y ∈ breachesIn (d.audit.scan fun j => j = i) ∨ y = x := by
    intro y
    rw [Table.scan_insert, decide_eq_true rfl, if_pos rfl, breachesIn_append, List.mem_append]
    exact or_congr_right List.mem_singleton
  have hcommitted : breachesIn ((d.audit.insert i (Recorded.entry x.1 at' (.breached x.2))).scan fun _ => false) =
      breachesIn (d.audit.scan fun _ => false) := by
    rw [Table.scan_insert]
    simp
  have hdist := h.distinct
  rw [List.cons_append, List.nodup_cons, List.mem_append, not_or] at hdist
  refine ⟨?_,fun y hy => ?_,fun y hy => ?_⟩
  · rw [← List.append_assoc]
    refine List.nodup_append_comm.mp (List.nodup_cons.mpr ⟨?_,hdist.2⟩)
    simpa using hdist.1
  · obtain ⟨⟨hown,hnew⟩,hold⟩ := h.owed y (List.mem_cons_of_mem _ hy)
    refine ⟨⟨hown,fun hmem => ?_⟩,by rw [hcommitted]; exact hold⟩
    rcases (hmine y).mp hmem with hmem | rfl
    · exact hnew hmem
    · exact hdist.1.1 hy
  · rcases List.mem_append.mp hy with hy | hy
    · obtain ⟨hown,hin,hold⟩ := h.paid y hy
      exact ⟨hown,(hmine y).mpr (.inl hin),by rw [hcommitted]; exact hold⟩
    · rw [List.mem_singleton.mp hy]
      obtain ⟨⟨⟨r,hr,_⟩,_⟩,hold⟩ := h.owed x List.mem_cons_self
      exact ⟨⟨r,hr⟩,(hmine x).mpr (.inr rfl),by rw [hcommitted]; exact hold⟩

private theorem leads_recordBreaches (breaches : List Breach) (done : List (Uuid × SlaTimer)) :
    (sweepRegime (ι := ι)).Leads i req ctx (recordBreaches at' breaches) (Recording i (breaches.map Breach.about) done)
      fun _ => Recording i [] (done ++ breaches.map Breach.about) := by
  induction breaches generalizing done with
  | nil =>
    refine Regime.leads_done fun d _ h => ?_
    rw [List.map_nil, List.append_nil]
    exact h
  | cons b rest ih =>
    have hrest := ih (done ++ [b.about])
    rw [List.append_assoc] at hrest
    refine Regime.leads_bind (Q := fun _ => Recording i (rest.map Breach.about) (done ++ [b.about])) ?_ fun _ => hrest
    refine Regime.leads_guarded (A := fun _ => Recording i (b.about :: rest.map Breach.about) done)
      (fun _ => stable_recording) (fun _ => stable_recording) (fun _ _ h => h) ?_ ?_
    · intro d c d' c' _ _ _ ht
      obtain ⟨plan,hplan⟩ := update_of_more ht
      cases hplan
    · intro d c d' a hd hA _ ht
      have hc : Changes (deskEngine ι) Desk.world
          (fun _ j _ q _ => j = i ∧ q = .record b.ticketId (.breached b.timer) at') d d' := .answer ⟨rfl,rfl⟩ ht
      have hinv : Sealed d' := by
        refine sealed_of_change hd hc fun j ctx' k timer t c' hk => ?_
        obtain ⟨rfl,heq⟩ := hk
        cases heq
        exact (hA.owed _ List.mem_cons_self).1
      obtain ⟨_,rfl⟩ := Desk.recorded_of_answer ht
      exact ⟨hinv,recording_insert hA⟩

private theorem sealed_commit (h : Sealed d) (i : ι) : Sealed (d.commit i) := by
  have hc : Changes (deskEngine ι) Desk.world (fun _ _ _ _ _ => False) d (d.commit i) := .commit i
  exact sealed_of_change h hc fun _ _ _ _ _ _ hk => hk.elim

theorem about_breaches {tenantId : Uuid} (rows : List (Uuid × Ticket)) :
    (rows.flatMap fun row => (latchedTimers row.2 now).map fun timer => (⟨tenantId, row.1, timer, now⟩ : Breach)).map Breach.about =
      rows.flatMap fun row => (latchedTimers row.2 now).map (row.1, ·) := by
  rw [List.map_flatMap]
  exact congrArg (rows.flatMap ·) (funext fun row => List.map_map)

/-- Rows of different Tickets make different breaches. -/
theorem nodup_latched {rows : List (Uuid × Ticket)} (h : (rows.map Prod.fst).Nodup) :
    (rows.flatMap fun row => (latchedTimers row.2 now).map (row.1, ·)).Nodup := by
  refine List.nodup_flatMap.mpr ⟨fun row _ => ?_,?_⟩
  · refine List.Nodup.map (Prod.mk_right_injective row.1) ?_
    unfold latchedTimers
    split <;> split <;> simp
  · rw [List.Nodup, List.pairwise_map] at h
    refine h.imp fun {row row'} hne x hx hx' => ?_
    obtain ⟨_,_,rfl⟩ := List.mem_map.mp hx
    obtain ⟨_,_,heq⟩ := List.mem_map.mp hx'
    exact hne (congrArg Prod.fst heq).symm

/-- The rows of the statement, once it has answered, owe what the sweep is going to record. -/
private theorem recording_of_latching {tenantId : Uuid} {rows : List (Uuid × Ticket)} (h : Latching i now ([], rows) d) :
    Recording i ((rows.flatMap fun row => (latchedTimers row.2 now).map fun timer =>
      (⟨tenantId, row.1, timer, now⟩ : Breach)).map Breach.about) [] d := by
  rw [about_breaches]
  refine ⟨?_,fun x hx => ?_,fun x hx => (by cases hx)⟩
  · rw [List.append_nil]
    exact nodup_latched (by simpa using h.distinct)
  · obtain ⟨row,hrow,hx⟩ := List.mem_flatMap.mp hx
    obtain ⟨timer,ht,rfl⟩ := List.mem_map.mp hx
    exact h.owed row hrow timer ht

private theorem safe_sweep {tenantId : Uuid} : (sweepRegime (ι := ι)).Safe i (.sweep tenantId targets now at') ctx
    (latchTenant tenantId targets now at') fun _ => True := by
  refine leads_update _ fun rows => ?_
  refine Regime.Safe.mono (leads_recordBreaches _ [] _ fun _ => ?_) fun d _ h => recording_of_latching h
  intro d hd h _
  rw [List.nil_append] at h
  refine ⟨sealed_commit hd i,h.distinct,fun b hb => ?_⟩
  obtain ⟨_,hin,hold⟩ := h.paid b.about (List.mem_map_of_mem hb)
  exact ⟨hin,hold⟩

private theorem safe_request (i : ι) (d : Desk ι) (req : Request) :
    (sweepRegime (ι := ι)).Safe i req (req.context d) req.script fun _ => True := by
  cases req with
  | sweep tenantId targets now at' => exact safe_sweep
  | other work quiet =>
    refine Regime.safe_of_only (fun _ _ _ _ _ h => h) ?_ ?_ ?_ quiet
    · intro q d c d' c' hq _ hd _ ht
      exact ⟨sealed_of_turn hd (.more ⟨rfl,rfl⟩ ht) hq,trivial⟩
    · intro q d c d' a hq _ hd _ ht
      exact ⟨sealed_of_turn hd (.answer ⟨rfl,rfl⟩ ht) hq,trivial⟩
    · intro a d hd _ _
      exact ⟨sealed_commit hd i,trivial⟩

end Outline

abbrev SweepServer (ι : Type) [DecidableEq ι] :=
  Server deskLanguage Failure (List Breach) ι TenantContext (Desk ι) (deskEngine ι).Cursor Request

abbrev sweepStep (ι : Type) [DecidableEq ι] : SweepServer ι → Move ι Request Event → Option (SweepServer ι) :=
  Server.step (deskEngine ι) (requestService ι) Desk.world

private structure Heralded (s : SweepServer ι) : Prop where
  covered : (sweepRegime (ι := ι)).Covered s
  once : (announcements s.answers).Nodup
  logged : ∀ x ∈ announcements s.answers, x ∈ breachesIn (s.db.audit.scan fun _ => false)

private theorem logged_commit {x : Uuid × SlaTimer} (h : Sealed d) (hx : x ∈ breachesIn (d.audit.scan fun _ => false)) :
    x ∈ breachesIn ((d.commit i).audit.scan fun _ => false) := by
  obtain ⟨e,he,hb⟩ := List.mem_filterMap.mp hx
  obtain ⟨n,hn⟩ := (Table.mem_scan _ _).mp he
  rw [Table.view_none] at hn
  refine List.mem_filterMap.mpr ⟨e,(Table.mem_scan _ _).mpr ⟨n,?_⟩,hb⟩
  rw [Desk.commit, Table.view_none, Table.commit_committed, Table.visible_of_no_own _ _ _ ?_, hn]
  refine (Table.own_eq_none_iff _ _ _).mpr fun r hp => ?_
  cases hn.symm.trans (h.locked.insertOnly n _ hp)

private theorem announcements_snoc (answers : List (Request × List Breach)) (req : Request) (a : List Breach) :
    announcements (answers ++ [(req, a)]) = announcements answers ++
      match req with
      | .sweep _ _ _ _ => a.map Breach.about
      | .other _ _ => [] := by
  rw [announcements, List.flatMap_append, List.flatMap_singleton]
  rfl

private theorem heralded_step {s s' : SweepServer ι} {m : Move ι Request Event} (h : Heralded s)
    (hok : (sweepTerms ι).admits s m = true) (hs : sweepStep ι s m = some s') : Heralded s' := by
  have hcovered := Regime.covered_step (fun i d req _ => safe_request i d req) h.covered hok hs
  rcases committed_of_step hs with ⟨hans,hsame⟩ | ⟨i,x,a,rfl,hx,hscript,hl,hdb,hans⟩
  · refine ⟨hcovered,by rw [hans]; exact h.once,fun y hy => ?_⟩
    rw [hans] at hy
    obtain ⟨e,he,hb⟩ := List.mem_filterMap.mp (h.logged y hy)
    obtain ⟨n,hn⟩ := (Table.mem_scan _ _).mp he
    refine List.mem_filterMap.mpr ⟨e,(Table.mem_scan _ _).mpr ⟨n,?_⟩,hb⟩
    rw [Table.view_none] at hn ⊢
    rw [hsame.audit, hn]
  · have hpost : Announces i x.req a s.db := Regime.post_of_commit h.covered hok hx hscript hl
    have hold : ∀ y ∈ announcements s.answers, y ∈ breachesIn (s'.db.audit.scan fun _ => false) := by
      intro y hy
      rw [hdb]
      exact logged_commit h.covered.1 (h.logged y hy)
    cases hreq : x.req with
    | other work quiet =>
      have hsame : announcements s'.answers = announcements s.answers := by
        rw [hans, announcements_snoc, hreq, List.append_nil]
      exact ⟨hcovered,by rw [hsame]; exact h.once,by rw [hsame]; exact hold⟩
    | sweep tenantId targets now at' =>
      rw [hreq] at hpost
      obtain ⟨hdist,hnew⟩ := hpost
      have hmore : announcements s'.answers = announcements s.answers ++ a.map Breach.about := by
        rw [hans, announcements_snoc, hreq]
      refine ⟨hcovered,?_,fun y hy => ?_⟩
      · rw [hmore]
        refine List.nodup_append.mpr ⟨h.once,hdist,fun y hy z hz heq => ?_⟩
        subst heq
        obtain ⟨b,hb,rfl⟩ := List.mem_map.mp hz
        exact (hnew b hb).2 (h.logged _ hy)
      · rw [hmore] at hy
        rcases List.mem_append.mp hy with hy | hy
        · exact hold y hy
        · obtain ⟨b,hb,rfl⟩ := List.mem_map.mp hy
          rw [hdb, Desk.commit, Table.scan_commit]
          simpa using (hnew b hb).1

def BreachesOnce (s : SweepServer ι) : Prop :=
  ∀ k timer, (breachesIn (s.db.audit.scan fun _ => false)).count (k, timer) ≤ 1 ∧
    (announcements s.answers).count (k, timer) ≤ 1

/-- In every run in which no sweep comes to a row that holds its own instant as a latch, each breach is
recorded once and announced once, whatever goes on beside the sweeps. -/
theorem breachesOnce_of_run {acts : List (Move ι Request Event)} {s : SweepServer ι}
    (hr : Run (sweepStep ι) (fun s m => (sweepTerms ι).admits s m = true) (Server.initial Desk.empty) acts s) :
    BreachesOnce s := by
  have hheralded : Heralded s := by
    refine hr.invariant ⟨⟨sealed_empty,fun _ _ => trivial,fun _ _ hx => (by cases hx)⟩,List.nodup_nil,
      fun _ hx => (by cases hx)⟩ fun t m u ht hok hs => ?_
    exact heralded_step ht hok hs
  intro k timer
  exact ⟨List.nodup_iff_count_le_one.mp (hheralded.covered.1.fires fun _ => false).once _,
    List.nodup_iff_count_le_one.mp hheralded.once _⟩

private def tight : Targets := fun _ => some ⟨10, 10⟩

private theorem quiet_run {q : Stmt} (hq : recordsBreach q = false) :
    (Tx.run q .sql).Only fun q => recordsBreach q = false := Script.only_query hq

private def opening : Request :=
  .other ⟨1, .system, do
    let c ← Tx.run .insertContact .sql
    let _ ← Tx.run (.insertTicket (.fresh 1 "printer" c .portal none none 0)) .sql
    pure []⟩ ((quiet_run rfl).bind fun _ => (quiet_run rfl).bind fun _ => trivial)

/-- Two sweeps that have both picked the Ticket; the second, with `n` steps left, has to wait for the
first one's row. -/
private def overlapping (first second : Int) (n : Nat) : List (Move Bool Request Event) :=
  Move.begin true opening :: List.replicate 5 (Move.advance true) ++
    [Move.begin true (.sweep 1 tight first first), .begin false (.sweep 1 tight second second), .advance true, .advance false] ++
    List.replicate 7 (Move.advance true) ++ List.replicate n (Move.advance false)

theorem breachesOnce_of_overlap : ∃ s : SweepServer Bool, BreachesOnce s ∧ s.answers.length = 3 ∧
    announcements s.answers = [(0, .firstResponse), (0, .resolution)] := by
  have hrun : (exec (sweepStep Bool) (fun s m => (sweepTerms Bool).admits s m = true) (Server.initial Desk.empty)
      (overlapping 20 21 3)).any (fun s => s.answers.length = 3 ∧
        announcements s.answers = [(0, .firstResponse), (0, .resolution)]) = true := by
    decide +kernel
  obtain ⟨s,hs,hany⟩ := exec_any hrun
  obtain ⟨hlen,hann⟩ := of_decide_eq_true hany
  exact ⟨s,breachesOnce_of_run hs,hlen,hann⟩

/-- Two sweeps of the same instant: the second gets back the latches of the first and takes them for
its own. -/
theorem equalInstants_fire_twice : ¬ ∀ (acts : List (Move Bool Request Event)) (s : SweepServer Bool),
    Run (sweepStep Bool) Always (Server.initial Desk.empty) acts s → BreachesOnce s := by
  intro h
  have hrun : (exec (sweepStep Bool) Always (Server.initial Desk.empty) (overlapping 20 20 7)).any (fun s =>
      (breachesIn (s.db.audit.scan fun _ => false)).count (0, .resolution) = 2) = true := by
    decide +kernel
  obtain ⟨s,hs,hany⟩ := exec_any hrun
  have htwo := of_decide_eq_true hany
  have hone := (h _ s hs 0 .resolution).1
  omega

end Nivara.Sla
