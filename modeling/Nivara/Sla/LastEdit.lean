import Nivara.Sla.Chronicle
import Nivara.Tickets.Activity
import Nivara.Transactions.Triples

/-! `updated_at` is set by the client with each edit it makes, and by nothing in the database. The dwell timers
write SQL of their own, which does not set it. -/
namespace Nivara.Sla
open Transactions Tickets

def SameEdit (r r' : Ticket) : Prop := r'.state = r.state ∧ r'.priority = r.priority ∧ r'.assigneeId = r.assigneeId

/-- The transactions of the API and of the sweeps; `at'` is the instant at which they write. -/
inductive EditRequest where
  | deed (tenantId : Uuid) (actor : Actor) (act : Deed) (at' : Int)
  | latch (tenantId : Uuid) (targets : Targets) (now at' : Int)

namespace EditRequest

def at' : EditRequest → Int
  | .deed _ _ _ at' => at'
  | .latch _ _ _ at' => at'

def context {ι : Type} (d : Desk ι) : EditRequest → TenantContext
  | .deed tenantId actor act _ => ⟨tenantId, act.armed actor, d.clock⟩
  | .latch tenantId _ _ _ => ⟨tenantId, .system, d.clock⟩

def script : EditRequest → Tx Unit
  | .deed tenantId _ act at' => act.script tenantId at'
  | .latch tenantId targets now at' => (latchTenant tenantId targets now at').bind fun _ => .done ()

end EditRequest

def editService (ι : Type) : Service deskLanguage Failure Unit TenantContext (Desk ι) EditRequest where
  context := EditRequest.context
  script := EditRequest.script

section Terms
variable {ι : Type} [DecidableEq ι]

def passesOver (d : Desk ι) (i : ι) (ctx : TenantContext) : Cursor → Bool
  | ([], _) => true
  | ((k, set) :: _, _) => ((d.sees i ctx k).bind set).isNone

/-- No dwell timer moves a Ticket. -/
def editTerms (ι : Type) [DecidableEq ι] : Terms (deskEngine ι) Unit EditRequest where
  begin _ _ := true
  resume d i req ctx _ c :=
    match req with
    | .deed _ _ .settle _ => passesOver d i ctx c
    | _ => true
  commit _ _ _ _ _ := true

end Terms

def StampsEdits (t : Int) : Stmt → Prop
  | .updateTickets plan => ∀ k r set old new, plan k r = some set → set old = some new →
      new.updatedAt = t ∨ (new.updatedAt = old.updatedAt ∧ SameEdit old new)
  | .insertTicket row => row.updatedAt = t
  | _ => True

private theorem stamps_repertoire (t : Int) : Repertoire t (StampsEdits t) where
  reads _ := trivial
  edits matching data hdata := by
    intro k r set old new hset hnew
    obtain ⟨_,heq⟩ := Option.ite_none_right_eq_some.mp hset
    cases heq
    obtain ⟨_,heq⟩ := Option.ite_none_right_eq_some.mp hnew
    cases heq
    exact .inl (congrArg Ticket.updatedAt (hdata old))
  tickets _ _ _ _ _ _ := rfl
  created _ _ := trivial
  messages _ _ := trivial
  notes _ _ := trivial
  contacts := trivial
  deliveries _ _ := trivial
  jobs _ _ := trivial

private theorem stamps_latchTenant {tenantId : Uuid} {targets : Targets} {now at' : Int} (t : Int) :
    (latchTenant tenantId targets now at').Only (StampsEdits t) := by
  have hrecord (breaches : List Breach) : (recordBreaches at' breaches).Only (StampsEdits t) := by
    induction breaches with
    | nil => trivial
    | cons b rest ih => exact (Script.only_query trivial).bind fun _ => ih
  refine (Script.only_query ?_).bind fun rows => (hrecord _).bind fun _ => trivial
  intro k r set old new hset hnew
  -- the latches are not among the columns of an edit
  obtain ⟨target,_,hset⟩ := Option.bind_eq_some_iff.mp hset
  obtain ⟨_,heq⟩ := Option.ite_none_right_eq_some.mp hset
  cases heq
  cases hnew
  exact .inr ⟨rfl,rfl,rfl,rfl⟩

variable {ι : Type} [DecidableEq ι] {d d' : Desk ι} {i j : ι} {ctx : TenantContext} {k : Uuid} {t : Int}

def Stamped (i : ι) (t : Int) (d : Desk ι) : Prop :=
  ∀ k r', d.tickets.own i k = some r' →
    r'.updatedAt = t ∨ ∃ r, d.tickets.committed k = some r ∧ r'.updatedAt = r.updatedAt ∧ SameEdit r r'

/-- What the others leave to transaction `i`: its versions, and the Tickets it holds. -/
structure HoldsFor (i : ι) (d d' : Desk ι) : Prop where
  own : ∀ k, d'.tickets.own i k = d.tickets.own i k
  held : ∀ k r, d.tickets.own i k = some r → d'.tickets.committed k = d.tickets.committed k

private theorem holdsFor_of_effect {q : Stmt} {c : Cursor} (he : Effect d i ctx q c d') (hj : j ≠ i) : HoldsFor j d d' :=
  ⟨(own_of_effect he hj).1,fun _ _ _ => by rw [(committed_of_effect he).1]⟩

def editRegime : Regime (deskEngine ι) Unit EditRequest Event Desk.world where
  terms := editTerms ι
  inv _ := True
  rely := HoldsFor
  idle i d := ∀ k, d.tickets.own i k = none
  post i req _ _ d := Stamped i req.at' d
  inv_rollback _ _ _ := trivial
  inv_world _ _ _ _ _ := trivial
  idle_commit := Desk.own_tickets_commit
  idle_rollback := Desk.own_tickets_rollback
  idle_stable i d d' hr h k := (hr.own k).trans (h k)
  rely_refl i d := ⟨fun _ => rfl,fun _ _ _ => rfl⟩
  rely_commit d i j req ctx a hj _ _ _ := ⟨fun _ => Table.own_commit_other _ _ _ _ hj,
    fun k r hr => Table.visible_of_no_own _ _ _ (Table.own_exclusive _ _ _ _ hr (Ne.symm hj))⟩
  rely_rollback d i j hj _ := ⟨fun _ => Table.own_rollback_other _ _ _ _ hj,fun _ _ _ => rfl⟩
  rely_more d i j ctx q c d' c' hj _ ht := holdsFor_of_effect (effect_of_more ht) hj
  rely_answer d i j ctx q c d' a hj _ ht := holdsFor_of_effect (effect_of_answer ht) hj
  rely_world j d w d' _ hw := by
    obtain ⟨clock,users,rfl⟩ := Desk.of_world hw
    exact ⟨fun _ => rfl,fun _ _ _ => rfl⟩

private theorem stable_stamped : (editRegime (ι := ι)).Stable i (Stamped i t) := by
  intro d d' _ _ hr h k r' ho
  rw [hr.own k] at ho
  rw [hr.held k r' ho]
  exact h k r' ho

/-- A new version of a Ticket that is stamped, or no edit of what `i` sees. -/
private theorem stamped_stored {old new r : Ticket} (h : Stamped i t d) (hs : d.sees i ctx k = some old)
    (hst : Stored d i ctx k old new d' r) (hnew : new.updatedAt = t ∨ (new.updatedAt = old.updatedAt ∧ SameEdit old new)) :
    Stamped i t d' := by
  have hown := own_stored hs hst
  obtain ⟨entries,henf,rfl⟩ := hst.enforced
  have hok := enforced_of_ok henf
  have hupdated : r.updatedAt = new.updatedAt := by rw [hok.rest]
  have hedit : SameEdit new r := ⟨hok.state,hok.priority,hok.assignee⟩
  intro k' r' ho
  by_cases hk : k' = k
  · subst hk
    cases hown.symm.trans ho
    rw [hupdated]
    rcases hnew with hnew | ⟨hnew,hsame⟩
    · exact .inl hnew
    · rw [hnew]
      have htrans (r₀ : Ticket) (h₀ : SameEdit r₀ old) : SameEdit r₀ r :=
        ⟨hedit.1.trans (hsame.1.trans h₀.1),hedit.2.1.trans (hsame.2.1.trans h₀.2.1),hedit.2.2.trans (hsame.2.2.trans h₀.2.2)⟩
      rcases Table.visible_cases _ _ _ (Desk.sees_some.mp hs).1 with hmine | ⟨_,hc⟩
      · exact (h k' old hmine).imp_right fun ⟨r₀,hr₀,ht₀,h₀⟩ => ⟨r₀,hr₀,ht₀,htrans r₀ h₀⟩
      · exact .inr ⟨old,hc,rfl,htrans old ⟨rfl,rfl,rfl⟩⟩
  · have ho : d.tickets.own i k' = some r' := by
      simpa [Table.own_write_self, hk] using ho
    exact h k' r' ho

private theorem updatedAt_of_linkage {parent : Uuid → Option Ticket} {row r : Ticket}
    (h : enforceLinkageOnInsert parent row = .ok r) : r.updatedAt = row.updatedAt := by
  unfold enforceLinkageOnInsert at h
  split at h
  · cases h
    rfl
  · split at h
    · cases h
    · cases h
      rfl

private theorem stamped_turn {q : Stmt} {c : Cursor} (h : Stamped i t d) (hq : StampsEdits t q)
    (hreach : (deskEngine ι).Reaches i ctx q c) (he : Effect d i ctx q c d') : Stamped i t d' := by
  cases he with
  | aside _ ht _ _ _ =>
    intro k r' ho
    rw [ht] at ho ⊢
    exact h k r' ho
  | @updated plan k set rest written old new r d' _ hs hset hst =>
    obtain ⟨r₀,hplan⟩ := planned_of_reaches hreach (k, set) (by simp)
    exact stamped_stored h hs hst (hq k r₀ set old new hplan hset)
  | @inserted row r c hadm =>
    intro k r' ho
    rcases Table.own_insert_cases _ _ _ _ ho with ⟨_,_,rfl⟩ | ho
    · exact .inl ((updatedAt_of_linkage hadm.linkage).trans hq)
    · exact h k r' ho
  | posted _ hs hst => exact (stamped_stored h hs hst (.inr ⟨rfl,rfl,rfl,rfl⟩) :)
  | noted _ hs hst => exact (stamped_stored h hs hst (.inr ⟨rfl,rfl,rfl,rfl⟩) :)
  | recorded _ => exact h

private def Settles (q : Stmt) : Prop := (∃ plan, q = .updateTickets plan) ∨ ∃ picks, q = .selectTickets picks

private theorem settles_settleAll {now : Int} (list : List DwellTimer) : (settleAll now list).Only Settles := by
  induction list with
  | nil => trivial
  | cons timer rest ih =>
    refine Script.Only.bind ?_ fun _ => ih.bind fun _ => trivial
    unfold settle
    split
    · trivial
    · refine (Script.only_query (.inl ⟨_,rfl⟩)).bind fun rows => ?_
      split
      · trivial
      · exact Script.only_query (.inr ⟨_,rfl⟩)

/-- A dwell timer that passes over every Ticket leaves them all. -/
private theorem settles_more {q : Stmt} {c c' : Cursor} (hq : Settles q) (hpass : passesOver d i ctx c = true)
    (ht : (deskEngine ι).resume d i ctx q c = .more d' c') : d' = d := by
  rcases hq with ⟨plan,rfl⟩ | ⟨picks,rfl⟩
  · obtain ⟨k,set,rest,written,rfl,_,⟨hd,_⟩ | ⟨old,new,r,hs,hset,_⟩⟩ := Desk.updated_of_more ht
    · exact hd
    · simp only [passesOver, hs, Option.bind_some, hset] at hpass
      cases hpass
  · cases ht

private theorem settles_answer {q : Stmt} {c : Cursor} {a : q.Ans} (hq : Settles q)
    (ht : (deskEngine ι).resume d i ctx q c = .answer d' a) : d' = d := by
  rcases hq with ⟨plan,rfl⟩ | ⟨picks,rfl⟩
  · exact (Desk.updated_of_answer ht).1
  · cases ht
    rfl

private theorem safe_stamping {req : EditRequest} {p : Tx Unit} (hp : p.Only (StampsEdits req.at')) :
    (editRegime (ι := ι)).Safe i req ctx p (Stamped i req.at') := by
  refine Regime.safe_of_only stable_stamped ?_ ?_ (fun _ _ _ h _ => ⟨trivial,h⟩) hp
  · exact fun q d c d' c' hq hreach _ h ht => ⟨trivial,stamped_turn h hq hreach (effect_of_more ht)⟩
  · exact fun q d c d' a hq hreach _ h ht => ⟨trivial,stamped_turn h hq hreach (effect_of_answer ht)⟩

private theorem safe_settling {tenantId : Uuid} {actor : Actor} {p : Tx Unit} (hp : p.Only Settles) :
    (editRegime (ι := ι)).Safe i (.deed tenantId actor .settle t) ctx p (Stamped i t) := by
  refine Regime.safe_of_admitted stable_stamped ?_ ?_ (fun _ _ _ h _ => ⟨trivial,h⟩) hp
  · intro q d c d' c' hq _ _ h hterm ht
    rw [settles_more hq hterm ht]
    exact ⟨trivial,h⟩
  · intro q d c d' a hq _ _ h _ ht
    rw [settles_answer hq ht]
    exact ⟨trivial,h⟩

private theorem begins_edit : (editRegime (ι := ι)).Begins (editService ι) := by
  intro i d req hidle _
  have hfirst : Stamped i req.at' d := by
    intro k r' ho
    rw [hidle k] at ho
    cases ho
  refine ⟨Stamped i req.at',stable_stamped,hfirst,?_⟩
  cases req with
  | deed tenantId actor act at' =>
    by_cases hsettle : act = .settle
    · subst hsettle
      exact safe_settling ((settles_settleAll timers).bind fun _ => trivial)
    · exact safe_stamping (only_deed (stamps_repertoire at') act hsettle)
  | latch tenantId targets now at' => exact safe_stamping ((stamps_latchTenant at').bind fun _ => trivial)

abbrev EditServer (ι : Type) [DecidableEq ι] :=
  Server deskLanguage Failure Unit ι TenantContext (Desk ι) (deskEngine ι).Cursor EditRequest

abbrev editStep (ι : Type) [DecidableEq ι] : EditServer ι → Move ι EditRequest Event → Option (EditServer ι) :=
  Server.step (deskEngine ι) (editService ι) Desk.world

abbrev editOk (ι : Type) [DecidableEq ι] (s : EditServer ι) (m : Move ι EditRequest Event) : Prop :=
  (editTerms ι).admits s m = true

section Runs
variable {s u v : EditServer ι} {m : Move ι EditRequest Event} {acts later : List (Move ι EditRequest Event)}

private theorem covered_run (h : Run (editStep ι) (editOk ι) (.initial Desk.empty) acts s) : (editRegime (ι := ι)).Covered s :=
  h.invariant ⟨trivial,fun _ _ _ => rfl,fun _ _ hx => (by cases hx)⟩ fun _ _ _ ht hok hs =>
    Regime.covered_begun begins_edit ht hok hs

/-- A step that edits a Ticket is the commit of a transaction, and stamps the Ticket with its instant. -/
private theorem stamps_step (hc : (editRegime (ι := ι)).Covered s) (hok : editOk ι s m) (hs : editStep ι s m = some u)
    {r : Ticket} (hr : s.db.tickets.committed k = some r) : ∃ r', u.db.tickets.committed k = some r' ∧
      ((r'.updatedAt = r.updatedAt ∧ SameEdit r r' ∧ ∃ since, u.answers = s.answers ++ since) ∨
        ∃ i x a, m = .advance i ∧ s.sessions i = some x ∧ u.answers = s.answers ++ [(x.req, a)] ∧ r'.updatedAt = x.req.at') := by
  rcases commit_of_step (U := fun d d' => d'.tickets.committed = d.tickets.committed) (fun _ => rfl) (fun _ _ => rfl)
    (fun _ _ _ _ _ _ _ ht => (committed_of_effect (effect_of_more ht)).1)
    (fun _ _ _ _ _ _ _ ht => (committed_of_effect (effect_of_answer ht)).1)
    (fun _ _ _ hw => by obtain ⟨clock,users,rfl⟩ := Desk.of_world hw; rfl) hs
    with ⟨hanswers,hsame⟩ | ⟨i,x,a,rfl,hx,hscript,hl,hdb,hanswers⟩
  · refine ⟨r,by rw [hsame, hr],.inl ⟨rfl,⟨rfl,rfl,rfl⟩,[],?_⟩⟩
    rw [hanswers, List.append_nil]
  · have hpost : Stamped i x.req.at' s.db := Regime.post_of_commit hc hok hx hscript hl
    rw [hdb]
    cases ho : s.db.tickets.own i k with
    | none =>
      refine ⟨r,(Table.visible_of_no_own _ _ _ ho).trans hr,.inl ⟨rfl,⟨rfl,rfl,rfl⟩,_,hanswers⟩⟩
    | some r' =>
      refine ⟨r',Table.visible_of_own _ _ _ ho,?_⟩
      rcases hpost k r' ho with hstamp | ⟨r₀,hr₀,hkept,hsame⟩
      · exact .inr ⟨i,x,a,rfl,hx,hanswers,hstamp⟩
      · cases hr.symm.trans hr₀
        exact .inl ⟨hkept,hsame,_,hanswers⟩

/-- From any state of a run on: a Ticket is not edited, or carries the instant of a transaction that has
committed since. -/
private theorem stamps_run (hc : (editRegime (ι := ι)).Covered s) (h : Run (editStep ι) (editOk ι) s later u) {r : Ticket}
    (hr : s.db.tickets.committed k = some r) : ∃ r' since, u.db.tickets.committed k = some r' ∧ u.answers = s.answers ++ since ∧
      ((r'.updatedAt = r.updatedAt ∧ SameEdit r r') ∨ ∃ p ∈ since, r'.updatedAt = p.1.at') := by
  induction h with
  | nil => exact ⟨r,[],hr,(List.append_nil _).symm,.inl ⟨rfl,rfl,rfl,rfl⟩⟩
  | @snoc acts m v u hrun hok hs ih =>
    obtain ⟨r',since,hr',hanswers,hstamp⟩ := ih
    have hcv : (editRegime (ι := ι)).Covered v :=
      hrun.invariant hc fun _ _ _ ht hok hs => Regime.covered_begun begins_edit ht hok hs
    obtain ⟨r'',hr'',hlast⟩ := stamps_step hcv hok hs hr'
    rcases hlast with ⟨hkept,hsame,more,hmore⟩ | ⟨i,x,a,_,_,hmore,hnew⟩
    · refine ⟨r'',since ++ more,hr'',by rw [hmore, hanswers, List.append_assoc],?_⟩
      rcases hstamp with ⟨hkept',hsame'⟩ | ⟨p,hp,hp'⟩
      · exact .inl ⟨hkept.trans hkept',hsame.1.trans hsame'.1,hsame.2.1.trans hsame'.2.1,hsame.2.2.trans hsame'.2.2⟩
      · exact .inr ⟨p,List.mem_append_left _ hp,hkept.trans hp'⟩
    · refine ⟨r'',since ++ [(x.req, a)],hr'',by rw [hmore, hanswers, List.append_assoc],.inr ⟨_,List.mem_append_right _ List.mem_cons_self,hnew⟩⟩

/-- In every run in which no dwell timer moves a Ticket: a step that changes the committed state, priority or
assignee of a Ticket is the commit of a transaction, and sets `updated_at` to its instant; and a Ticket that is
not what it was at any earlier moment carries the instant of a transaction that has committed since. -/
theorem updatedAt_moves (h : Run (editStep ι) (editOk ι) (.initial Desk.empty) acts s) :
    (∀ m u k r r', editOk ι s m → editStep ι s m = some u → s.db.tickets.committed k = some r →
      u.db.tickets.committed k = some r' → ¬ SameEdit r r' →
        ∃ i x, m = .advance i ∧ s.sessions i = some x ∧ r'.updatedAt = x.req.at') ∧
    ∀ later u k r r', Run (editStep ι) (editOk ι) s later u → s.db.tickets.committed k = some r →
      u.db.tickets.committed k = some r' → ¬ SameEdit r r' →
        ∃ since, u.answers = s.answers ++ since ∧ ∃ p ∈ since, r'.updatedAt = p.1.at' := by
  have hc := covered_run h
  refine ⟨?_,?_⟩
  · intro m u k r r' hok hs hr hr' hedit
    obtain ⟨r'',hr'',⟨_,hsame,_⟩ | ⟨i,x,a,hm,hx,_,hnew⟩⟩ := stamps_step hc hok hs hr
    · cases hr'.symm.trans hr''
      exact absurd hsame hedit
    · cases hr'.symm.trans hr''
      exact ⟨i,x,hm,hx,hnew⟩
  · intro later u k r r' hrun hr hr' hedit
    obtain ⟨r'',since,hr'',hanswers,⟨_,hsame⟩ | hp⟩ := stamps_run hc hrun hr
    · cases hr'.symm.trans hr''
      exact absurd hsame hedit
    · cases hr'.symm.trans hr''
      exact ⟨since,hanswers,hp⟩

end Runs

private def issue (req : EditRequest) (n : Nat) : List (Move Bool EditRequest Event) :=
  .begin true req :: List.replicate n (.advance true)

private def aboutToWait : List (Move Bool EditRequest Event) :=
  issue (.deed 1 .system .contact 0) 3 ++ issue (.deed 1 .system (.create ⟨"printer", 0, .portal, none, none⟩) 0) 5 ++
    issue (.deed 1 .system (.transition [.ticketTransition] 0 .pending) 5) 7

theorem updatedAt_moves_waiting : ∃ (s u : EditServer Bool) (r r' : Ticket), editStep Bool s (.advance true) = some u ∧
    s.db.tickets.committed 0 = some r ∧ u.db.tickets.committed 0 = some r' ∧ r.state = .opened ∧ r'.state = .pending ∧
    ∃ x, s.sessions true = some x ∧ r'.updatedAt = x.req.at' := by
  have hrun : (exec (editStep Bool) (editOk Bool) (.initial Desk.empty) aboutToWait).any (fun s =>
      editOk Bool s (.advance true) ∧ (s.db.tickets.committed 0).any (fun r => r.state = .opened) ∧
        (editStep Bool s (.advance true)).any fun u => (u.db.tickets.committed 0).any fun r' => r'.state = .pending) = true := by
    decide +kernel
  obtain ⟨s,hs,hp⟩ := exec_any hrun
  obtain ⟨hok,hbefore,hp⟩ := of_decide_eq_true hp
  obtain ⟨u,hstep,hp⟩ := (Option.any_eq_true _ _).mp hp
  obtain ⟨r,hr,hopen⟩ := (Option.any_eq_true _ _).mp hbefore
  obtain ⟨r',hr',hpending⟩ := (Option.any_eq_true _ _).mp hp
  have hopen : r.state = .opened := of_decide_eq_true hopen
  have hpending : r'.state = .pending := of_decide_eq_true hpending
  have hedit : ¬ SameEdit r r' := by
    intro h
    have hstate := h.1
    rw [hopen, hpending] at hstate
    cases hstate
  obtain ⟨i,x,hm,hx,hnew⟩ := (updatedAt_moves hs).1 _ u 0 r r' hok hstep hr hr' hedit
  cases hm
  exact ⟨s,u,r,r',hstep,hr,hr',hopen,hpending,x,hx,hnew⟩

private def aboutToSettle : List (Move Bool EditRequest Event) :=
  aboutToWait ++ Move.advance true :: .world (.tick 691200000) :: issue (.deed 1 .system .settle 691200000) 7

/-- The dwell sweep resolves a Ticket, and its `updated_at` is still what it was before. -/
theorem settle_keeps_updatedAt : ∃ (s u : EditServer Bool) (r r' : Ticket),
    Run (editStep Bool) Always (.initial Desk.empty) aboutToSettle s ∧ editStep Bool s (.advance true) = some u ∧
    s.db.tickets.committed 0 = some r ∧ u.db.tickets.committed 0 = some r' ∧ r.state = .pending ∧ r'.state = .resolved ∧
    (∃ x, s.sessions true = some x ∧ x.req.at' = 691200000) ∧ r.updatedAt = 5 ∧ r'.updatedAt = 5 := by
  have hrun : (exec (editStep Bool) Always (.initial Desk.empty) aboutToSettle).any (fun s =>
      (s.db.tickets.committed 0).any (fun r => r.state = .pending ∧ r.updatedAt = 5) ∧
        (s.sessions true).any (fun x => x.req.at' = 691200000) ∧
        (editStep Bool s (.advance true)).any fun u => (u.db.tickets.committed 0).any fun r' =>
          r'.state = .resolved ∧ r'.updatedAt = 5) = true := by
    decide +kernel
  obtain ⟨s,hs,hp⟩ := exec_any hrun
  obtain ⟨hbefore,hx,hp⟩ := of_decide_eq_true hp
  obtain ⟨u,hstep,hp⟩ := (Option.any_eq_true _ _).mp hp
  obtain ⟨r,hr,hold⟩ := (Option.any_eq_true _ _).mp hbefore
  obtain ⟨x,hx,hat⟩ := (Option.any_eq_true _ _).mp hx
  obtain ⟨r',hr',hnew⟩ := (Option.any_eq_true _ _).mp hp
  obtain ⟨hpending,hold⟩ := of_decide_eq_true hold
  obtain ⟨hresolved,hnew⟩ := of_decide_eq_true hnew
  exact ⟨s,u,r,r',hs,hstep,hr,hr',hpending,hresolved,⟨x,hx,of_decide_eq_true hat⟩,hold,hnew⟩

end Nivara.Sla
