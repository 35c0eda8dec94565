import Nivara.Realtime.Numbering
import Nivara.Realtime.Rooms
import Nivara.Tickets.Conversation

/-! The snapshots by which `tickets/ticket.service.ts` announces its edits. An edit commits under the
lock of its Ticket's row; its snapshot is numbered by a publish of its own afterwards, and nothing
keeps the publishes in the order of the commits. -/
namespace Nivara.Realtime
open Transactions Tickets

inductive Edit where
  | transition (permissions : List Permission) (to' : TicketState)
  | setPriority (priority : TicketPriority)
  | setAssignee (assigneeId : Option Uuid)

def Edit.event : Edit → RealtimeEvent
  | .transition _ _ => .ticketUpdated
  | .setPriority _ => .ticketUpdated
  | .setAssignee _ => .ticketAssigned

/-- A call that edits the Ticket `id`; `at'` is the instant Prisma stamps it with. -/
structure EditCall where
  tenantId : Uuid
  actor : Actor
  id : Uuid
  edit : Edit
  at' : Int

def EditCall.script (call : EditCall) : Tx (Uuid × Ticket) :=
  match call.edit with
  | .transition permissions to' => transitionIn permissions call.id to' call.at'
  | .setPriority priority => setPriority call.id priority call.at'
  | .setAssignee assigneeId => setAssignee call.id assigneeId call.at'

def editService (ι : Type) : Service deskLanguage Failure (Uuid × Ticket) TenantContext (Desk ι) EditCall where
  context d call := ⟨call.tenantId, call.actor, d.clock⟩
  script := EditCall.script

structure TicketSnapshot where
  id : Uuid
  subject : String
  state : TicketState
  priority : TicketPriority
  source : TicketSource
  contactId : Uuid
  assigneeId : Option Uuid
  spawnedFromTicketId : Option Uuid
  rootTicketId : Option Uuid
  createdAt : Int
  updatedAt : Int
  deriving DecidableEq, Repr

def ticketSnapshot (id : Uuid) (ticket : Ticket) : TicketSnapshot where
  id := id
  subject := ticket.subject
  state := ticket.state
  priority := ticket.priority
  source := ticket.source
  contactId := ticket.contactId
  assigneeId := ticket.assigneeId
  spawnedFromTicketId := ticket.spawnedFromTicketId
  rootTicketId := ticket.rootTicketId
  createdAt := ticket.createdAt
  updatedAt := ticket.updatedAt

structure Names where
  text : Uuid → String
  uuid : ∀ id, isUuid (text id) = true

/-- The server with the calls it has open, and the process's log. The calls that have committed are
known by their place in `answers`; `announced` has those whose snapshot is in the agents room, in the
order in which they got there, and `echoed` those whose snapshot is in the Ticket's room too. -/
structure Board (ι : Type) [DecidableEq ι] where
  server : Server deskLanguage Failure (Uuid × Ticket) ι TenantContext (Desk ι) (deskEngine ι).Cursor EditCall
  log : EventLog TicketSnapshot
  announced : List (Nat × Envelope TicketSnapshot)
  echoed : List Nat
  published : List (Envelope TicketSnapshot)

/-- A step of the server, the publish in the agents room, or the one in the Ticket's room. -/
inductive BoardAction (ι : Type) where
  | server (m : Move ι EditCall Event)
  | announce (n : Nat) (ts : Int)
  | echo (n : Nat) (ts : Int)

namespace Board
variable {ι : Type} [DecidableEq ι] {names : Names} {b b' : Board ι}

def initial (d : Desk ι) (options : EventLogOptions) : Board ι := ⟨.initial d, .new options, [], [], []⟩

def step (names : Names) (b : Board ι) : BoardAction ι → Option (Board ι)
  | .server m => (b.server.step (deskEngine ι) (editService ι) Desk.world m).map fun server => { b with server := server }
  | .announce n ts =>
    match b.server.answers[n]? with
    | none => none
    | some (call, id, ticket) =>
      if n ∈ b.announced.map Prod.fst then none
      else
        let (log, envelope) := b.log.append (agentsRoom (names.text ticket.tenantId)) call.edit.event (ticketSnapshot id ticket) ts
        some { b with log := log, announced := b.announced ++ [(n, envelope)], published := b.published ++ [envelope] }
  | .echo n ts =>
    match b.server.answers[n]? with
    | none => none
    | some (call, id, ticket) =>
      if call.edit.event = .ticketUpdated ∧ n ∈ b.announced.map Prod.fst ∧ n ∉ b.echoed then
        let (log, envelope) := b.log.append (ticketRoom (names.text ticket.tenantId) (names.text id)) .ticketUpdated
          (ticketSnapshot id ticket) ts
        some { b with log := log, echoed := b.echoed ++ [n], published := b.published ++ [envelope] }
      else none

def returned (b : Board ι) (n : Nat) : Bool :=
  n ∈ b.announced.map Prod.fst ∧ (b.server.answers[n]?.all fun a => a.1.edit.event ≠ .ticketUpdated ∨ n ∈ b.echoed) = true

def AllReturned (b : Board ι) : Prop :=
  (∀ i, (b.server.sessions i).isNone = true) ∧ ∀ n, n < b.server.answers.length → b.returned n = true

def Tells (names : Names) (k : Uuid) (r : Ticket) (e : Envelope TicketSnapshot) : Prop :=
  e.room = agentsRoom (names.text r.tenantId) ∧ (e.event = .ticketUpdated ∨ e.event = .ticketAssigned) ∧ e.data.id = k

/-- Of what the dashboard was told of a Ticket, the envelope with the highest number has it as it is. -/
def Converged (names : Names) (b : Board ι) : Prop :=
  ∀ k r e, b.server.db.tickets.committed k = some r → e ∈ b.published → Tells names k r e →
    (∀ e' ∈ b.published, Tells names k r e' → e'.seq ≤ e.seq) →
    e.data.state = r.state ∧ e.data.priority = r.priority ∧ e.data.assigneeId = r.assigneeId

def callsOn (answers : List (EditCall × Uuid × Ticket)) (k : Uuid) : List Nat :=
  (List.range answers.length).filter fun n => answers[n]?.any fun a => a.2.1 = k

/-- No snapshot of a Ticket is announced once that of the call on it which has committed last has been. -/
def timely (b : Board ι) : BoardAction ι → Bool
  | .announce n _ => b.server.answers[n]?.all fun a =>
      (callsOn b.server.answers a.2.1).getLast?.all fun latest => latest ∉ b.announced.map Prod.fst
  | _ => true

end Board

section Outline
variable {ι : Type} [DecidableEq ι] {i : ι} {ctx : TenantContext} {call : EditCall} {id : Uuid}

/-- Transaction `i` has written the Ticket `id`, as `r`, and no other. -/
structure Holds (i : ι) (id : Uuid) (r : Ticket) (d : Desk ι) : Prop where
  own : d.tickets.own i id = some r
  others : ∀ k, k ≠ id → d.tickets.own i k = none

/-- What transaction `i` has written of the Tickets is nobody else's to change; a call that commits
returns the row as it has written it. -/
def editRegime : Regime (deskEngine ι) (Uuid × Ticket) EditCall Event Desk.world where
  terms := .any
  inv _ := True
  rely i d d' := ∀ k, d'.tickets.own i k = d.tickets.own i k
  idle i d := ∀ k, d.tickets.own i k = none
  post i call _ a d := a.1 = call.id ∧ Holds i call.id a.2 d
  inv_rollback _ _ _ := trivial
  inv_world _ _ _ _ _ := trivial
  idle_commit := Desk.own_tickets_commit
  idle_rollback := Desk.own_tickets_rollback
  idle_stable _ _ _ hr h k := (hr k).trans (h k)
  rely_refl _ _ _ := rfl
  rely_commit _ _ _ _ _ _ hj _ _ _ _ := Table.own_commit_other _ _ _ _ hj
  rely_rollback _ _ _ hj _ _ := Table.own_rollback_other _ _ _ _ hj
  rely_more _ _ _ _ _ _ _ _ hj _ ht := (own_of_effect (effect_of_more ht) hj).1
  rely_answer _ _ _ _ _ _ _ _ hj _ ht := (own_of_effect (effect_of_answer ht) hj).1
  rely_world _ _ _ _ _ hw _ := by
    obtain ⟨clock,users,rfl⟩ := Desk.of_world hw
    rfl

private theorem stable_holds {r : Ticket} : (editRegime (ι := ι)).Stable i (Holds i id r) :=
  fun _ _ _ _ hr h => ⟨(hr id).trans h.own,fun k hk => (hr k).trans (h.others k hk)⟩

private theorem stable_idle : (editRegime (ι := ι)).Stable i ((editRegime (ι := ι)).idle i) :=
  fun d d' _ _ hr h => (editRegime (ι := ι)).idle_stable i d d' hr h

/-- Where an `UPDATE` of the Ticket `id` alone stands: nothing has been written, or that Ticket has. -/
structure Editing (i : ι) (id : Uuid) (c : Cursor) (d : Desk ι) : Prop where
  only : ∀ p ∈ c.1, p.1 = id
  others : ∀ k, k ≠ id → d.tickets.own i k = none
  wrote : c.2 ≠ [] → ∃ r, d.tickets.own i id = some r

private theorem stable_editing {c : Cursor} : (editRegime (ι := ι)).Stable i (Editing i id c) :=
  fun _ _ _ _ hr h => ⟨h.only,fun k hk => (hr k).trans (h.others k hk),fun hc => (hr id).symm ▸ h.wrote hc⟩

private theorem leads_updateMany {matching : Uuid → Ticket → Bool} {data : Ticket → Ticket} {thrown : SqlState → Failure}
    (honly : ∀ k r, matching k r = true → k = id) :
    (editRegime (ι := ι)).Leads i call ctx (Tx.updateMany matching data thrown) ((editRegime (ι := ι)).idle i)
      fun rows d => Editing i id ([], rows) d := by
  refine Regime.leads_guarded (A := Editing i id) (fun _ => stable_editing) (fun _ => stable_editing) ?_ ?_ ?_
  · intro d _ hidle
    refine ⟨fun p hp => ?_,fun k _ => hidle k,fun hc => absurd rfl hc⟩
    obtain ⟨row,_,hplan⟩ := List.mem_filterMap.mp hp
    obtain ⟨set,hset,rfl⟩ := Option.map_eq_some_iff.mp hplan
    exact honly row.1 row.2 (Option.ite_none_right_eq_some.mp hset).1
  · intro d c d' c' _ hA _ ht
    obtain ⟨k,set,rest,written,rfl,_,⟨rfl,rfl⟩ | ⟨old,new,r,hs,_,hst,rfl⟩⟩ := Desk.updated_of_more ht
    · exact ⟨trivial,fun p hp => hA.only p (List.mem_cons_of_mem _ hp),hA.others,hA.wrote⟩
    · have hk : k = id := hA.only (k, set) List.mem_cons_self
      subst hk
      obtain ⟨entries,_,rfl⟩ := hst.enforced
      refine ⟨trivial,fun p hp => hA.only p (List.mem_cons_of_mem _ hp),fun k' hk' => ?_,fun _ => ?_⟩
      · rw [Table.own_write_self, if_neg (by simp [hk'])]
        exact hA.others k' hk'
      · exact ⟨r,Table.own_write_picked _ _ _ (by simp) (Desk.sees_some.mp hs).1 rfl⟩
  · intro d c d' rows _ hA _ ht
    obtain ⟨rfl,rfl⟩ := Desk.updated_of_answer ht
    exact ⟨trivial,hA⟩

/-- What is read back is the row as the transaction has written it. -/
private theorem leads_readBack : (editRegime (ι := ι)).Leads i call ctx (readBack id) (fun d => ∃ r, Holds i id r d)
    fun a d => a.1 = id ∧ Holds i id a.2 d := by
  refine Regime.leads_bind (Q := fun row d => ∀ r, row = some r → Holds i id r d) ?_ fun row => ?_
  · refine leads_findUnique (Regime.stable_exists fun _ => stable_holds) (fun row d d' hd hd' hr h r hrow => ?_) fun d _ h r hrow => ?_
    · exact stable_holds d d' hd hd' hr (h r hrow)
    · obtain ⟨r',hr'⟩ := h
      have hvis := (Desk.sees_some.mp hrow).1
      rw [Table.visible_of_own _ _ _ hr'.own] at hvis
      cases hvis
      exact hr'
  · cases row with
    | none => exact Regime.leads_fail
    | some ticket => exact Regime.leads_done fun d _ h => ⟨rfl,h ticket rfl⟩

/-- The end that the edits have in common: nothing has been written, or the row is read back. -/
private theorem leads_edited {rows : List (Uuid × Ticket)} {e : Failure} :
    (editRegime (ι := ι)).Leads i call ctx (if rows.isEmpty then .fail e else readBack id) (Editing i id ([], rows))
      fun a d => a.1 = id ∧ Holds i id a.2 d := by
  cases rows with
  | nil => exact Regime.leads_fail
  | cons row rows =>
    refine leads_readBack.mono fun d _ h => ?_
    obtain ⟨r,hr⟩ := h.wrote (List.cons_ne_nil _ _)
    exact ⟨r,hr,h.others⟩

private theorem leads_transitionIn {permissions : List Permission} {to' : TicketState} {at' : Int} :
    (editRegime (ι := ι)).Leads i call ctx (transitionIn permissions id to' at') ((editRegime (ι := ι)).idle i)
      fun a d => a.1 = id ∧ Holds i id a.2 d := by
  refine Regime.leads_bind (leads_findUnique stable_idle (fun _ => stable_idle) fun _ _ h => h) fun row => ?_
  cases row with
  | none => exact Regime.leads_fail
  | some current =>
    simp only
    split
    · exact Regime.leads_fail
    · exact Regime.leads_bind (leads_updateMany fun k r hm => (of_decide_eq_true hm).1) fun rows => leads_edited

private theorem leads_edit {data : Ticket → Ticket} {at' : Int} {thrown : SqlState → Failure} :
    (editRegime (ι := ι)).Leads i call ctx (Tickets.update id data at' thrown) ((editRegime (ι := ι)).idle i)
      fun a d => a.1 = id ∧ Holds i id a.2 d :=
  Regime.leads_bind (leads_updateMany fun _ _ hm => of_decide_eq_true hm) fun _ => leads_edited

private theorem safe_edit (i : ι) (ctx : TenantContext) (call : EditCall) :
    (editRegime (ι := ι)).Safe i call ctx call.script ((editRegime (ι := ι)).idle i) := by
  have hleads : (editRegime (ι := ι)).Leads i call ctx call.script ((editRegime (ι := ι)).idle i)
      fun a d => a.1 = call.id ∧ Holds i call.id a.2 d := by
    unfold EditCall.script
    split
    · exact leads_transitionIn
    · exact leads_edit
    · exact leads_edit
  exact hleads.safe fun a d _ h _ => ⟨trivial,h⟩

end Outline

namespace Board
variable {ι : Type} [DecidableEq ι] {names : Names} {b b' : Board ι} {k : Uuid}
  {answers : List (EditCall × Uuid × Ticket)} {latest : Nat}

theorem callsOn_snoc (answers : List (EditCall × Uuid × Ticket)) (a : EditCall × Uuid × Ticket) (k : Uuid) :
    callsOn (answers ++ [a]) k = callsOn answers k ++ if a.2.1 = k then [answers.length] else [] := by
  have hold : (List.range answers.length).filter (fun n => (answers ++ [a])[n]?.any fun a => decide (a.2.1 = k)) =
      callsOn answers k := by
    refine List.filter_congr fun n hn => ?_
    rw [List.getElem?_append_left (List.mem_range.mp hn)]
  rw [callsOn, List.length_append, List.length_singleton, List.range_succ, List.filter_append, hold]
  by_cases hk : a.2.1 = k
  · simp [hk]
  · simp [hk]

theorem mem_callsOn {n : Nat} : n ∈ callsOn answers k ↔ ∃ a, answers[n]? = some a ∧ a.2.1 = k := by
  simp only [callsOn, List.mem_filter, List.mem_range]
  constructor
  · intro h
    obtain ⟨a,ha,hk⟩ := (Option.any_eq_true _ _).mp h.2
    exact ⟨a,ha,of_decide_eq_true hk⟩
  · intro h
    obtain ⟨a,ha,hk⟩ := h
    exact ⟨(List.getElem?_eq_some_iff.mp ha).1,(Option.any_eq_true _ _).mpr ⟨a,ha,decide_eq_true hk⟩⟩

structure Sound (names : Names) (b : Board ι) : Prop where
  covered : (editRegime (ι := ι)).Covered b.server
  numbered : Numbered b.log b.published
  newest : ∀ k latest a, (callsOn b.server.answers k).getLast? = some latest → b.server.answers[latest]? = some a →
    b.server.db.tickets.committed k = some a.2.2
  snapshots : ∀ x ∈ b.announced, ∃ call id r, b.server.answers[x.1]? = some (call, id, r) ∧
    x.2.room = agentsRoom (names.text r.tenantId) ∧ x.2.event = call.edit.event ∧ x.2.data = ticketSnapshot id r
  inOrder : (b.announced.map Prod.snd).Sublist b.published
  elsewhere : ∀ e ∈ b.published, e ∈ b.announced.map Prod.snd ∨ ∃ t id, e.room = ticketRoom t (names.text id)
  last : ∀ k latest, (callsOn b.server.answers k).getLast? = some latest → latest ∈ b.announced.map Prod.fst →
    ∀ x, (b.announced.filter fun x => x.2.data.id = k).getLast? = some x → x.1 = latest

/-- A step of the server commits nothing, or commits one call on one Ticket. -/
private theorem committed_or_same {server : Server deskLanguage Failure (Uuid × Ticket) ι TenantContext (Desk ι) (deskEngine ι).Cursor EditCall}
    {m : Move ι EditCall Event} (h : (editRegime (ι := ι)).Covered b.server)
    (hs : b.server.step (deskEngine ι) (editService ι) Desk.world m = some server) :
    (server.answers = b.server.answers ∧ server.db.tickets.committed = b.server.db.tickets.committed) ∨
      ∃ a, server.answers = b.server.answers ++ [a] ∧ server.db.tickets.committed a.2.1 = some a.2.2 ∧
        ∀ k, k ≠ a.2.1 → server.db.tickets.committed k = b.server.db.tickets.committed k := by
  rcases committed_of_step hs with ⟨hans,hsame⟩ | ⟨i,x,a,rfl,hx,hscript,hl,hdb,hans⟩
  · exact .inl ⟨hans,hsame.tickets⟩
  · have hpost : a.1 = x.req.id ∧ Holds i x.req.id a.2 b.server.db :=
      Regime.post_of_commit h (Terms.admits_of_all (fun _ _ => rfl) (fun _ _ _ _ _ _ => rfl) (fun _ _ _ _ _ => rfl) b.server _) hx hscript hl
    obtain ⟨hid,hholds⟩ := hpost
    refine .inr ⟨(x.req, a),hans,?_,fun k hk => ?_⟩
    · rw [hdb, Desk.commit, Table.commit_committed, hid]
      exact Table.visible_of_own _ _ _ hholds.own
    · rw [hid] at hk
      rw [hdb, Desk.commit, Table.commit_committed]
      exact Table.visible_of_no_own _ _ _ (hholds.others k hk)

private theorem sound_server {server : Server deskLanguage Failure (Uuid × Ticket) ι TenantContext (Desk ι) (deskEngine ι).Cursor EditCall}
    {m : Move ι EditCall Event} (h : b.Sound names)
    (hs : b.server.step (deskEngine ι) (editService ι) Desk.world m = some server) :
    Sound names { b with server := server } := by
  have hcovered : (editRegime (ι := ι)).Covered server := by
    refine Regime.covered_step (fun i d call _ => safe_edit i _ call) h.covered ?_ hs
    exact Terms.admits_of_all (fun _ _ => rfl) (fun _ _ _ _ _ _ => rfl) (fun _ _ _ _ _ => rfl) b.server m
  rcases committed_or_same h.covered hs with ⟨hans,hsame⟩ | ⟨a,hans,hnew,hothers⟩
  · refine ⟨hcovered,h.numbered,?_,?_,h.inOrder,h.elsewhere,?_⟩
    · rw [hans, hsame]
      exact h.newest
    · rw [hans]
      exact h.snapshots
    · rw [hans]
      exact h.last
  · -- the new call is the last one on its Ticket, and has not been announced
    have hknown : ∀ x ∈ b.announced, x.1 < b.server.answers.length := fun x hx => by
      obtain ⟨_,_,_,hx',_⟩ := h.snapshots x hx
      exact (List.getElem?_eq_some_iff.mp hx').1
    have hlatest : ∀ k latest, (callsOn (b.server.answers ++ [a]) k).getLast? = some latest →
        (a.2.1 = k ∧ latest = b.server.answers.length) ∨
          (k ≠ a.2.1 ∧ (callsOn b.server.answers k).getLast? = some latest ∧ latest < b.server.answers.length) := by
      intro k latest hl
      rw [callsOn_snoc] at hl
      split at hl
      · rename_i hk
        rw [List.getLast?_concat] at hl
        cases hl
        exact .inl ⟨hk,rfl⟩
      · rename_i hk
        rw [List.append_nil] at hl
        obtain ⟨_,ha,_⟩ := mem_callsOn.mp (List.mem_of_getLast? hl)
        exact .inr ⟨Ne.symm hk,hl,(List.getElem?_eq_some_iff.mp ha).1⟩
    refine ⟨hcovered,h.numbered,fun k latest c hl hc => ?_,fun x hx => ?_,h.inOrder,h.elsewhere,fun k latest hl hin => ?_⟩
    · simp only [hans] at hl hc ⊢
      rcases hlatest k latest hl with ⟨rfl,rfl⟩ | ⟨hk,hl,hlt⟩
      · rw [List.getElem?_concat_length] at hc
        cases hc
        exact hnew
      · rw [List.getElem?_append_left hlt] at hc
        rw [hothers k hk]
        exact h.newest k latest c hl hc
    · simp only [hans]
      rw [List.getElem?_append_left (hknown x hx)]
      exact h.snapshots x hx
    · simp only [hans] at hl
      rcases hlatest k latest hl with ⟨_,rfl⟩ | ⟨_,hl,_⟩
      · obtain ⟨x,hx,hlen⟩ := List.mem_map.mp hin
        exact absurd (hknown x hx) (by rw [hlen]; exact Nat.lt_irrefl _)
      · exact h.last k latest hl hin

private theorem sound_announce {n : Nat} {ts : Int} (h : b.Sound names) (hok : b.timely (.announce n ts) = true)
    (hs : b.step names (.announce n ts) = some b') : b'.Sound names := by
  simp only [step] at hs
  split at hs
  · cases hs
  · rename_i call id ticket hn
    split at hs
    · cases hs
    · rename_i hfresh
      cases hs
      have hnumbered := numbered_append h.numbered (agentsRoom (names.text ticket.tenantId)) call.edit.event
        (ticketSnapshot id ticket) ts
      have hlatest : ∀ latest, (callsOn b.server.answers id).getLast? = some latest → latest ∉ b.announced.map Prod.fst := by
        intro latest hl
        simpa [timely, hn, hl] using hok
      refine ⟨h.covered,hnumbered,h.newest,fun x hx => ?_,?_,fun e he => ?_,fun k latest hl hin x hx => ?_⟩
      · rcases List.mem_append.mp hx with hx | hx
        · exact h.snapshots x hx
        · rw [List.mem_singleton.mp hx]
          exact ⟨call,id,ticket,hn,rfl,rfl,rfl⟩
      · rw [List.map_append]
        exact h.inOrder.append (List.Sublist.refl _)
      · rw [List.map_append, List.mem_append]
        rcases List.mem_append.mp he with he | he
        · rcases h.elsewhere e he with he | he
          · exact .inl (.inl he)
          · exact .inr he
        · exact .inl (.inr he)
      · simp only [List.map_append, List.mem_append] at hin
        rw [List.filter_append] at hx
        by_cases hk : id = k
        · -- of this Ticket, the newest call has not been announced before
          subst hk
          have hself : [(n, (b.log.append (agentsRoom (names.text ticket.tenantId)) call.edit.event
              (ticketSnapshot id ticket) ts).2)].filter (fun x => decide (x.2.data.id = id)) =
              [(n, (b.log.append (agentsRoom (names.text ticket.tenantId)) call.edit.event (ticketSnapshot id ticket) ts).2)] :=
            List.filter_eq_self.mpr fun x hx => by rw [List.mem_singleton.mp hx]; exact decide_eq_true rfl
          rw [hself, List.getLast?_concat] at hx
          cases hx
          rcases hin with hin | hin
          · exact absurd hin (hlatest latest hl)
          · exact (List.mem_singleton.mp hin).symm
        · have hnone : [(n, (b.log.append (agentsRoom (names.text ticket.tenantId)) call.edit.event
              (ticketSnapshot id ticket) ts).2)].filter (fun x => decide (x.2.data.id = k)) = [] :=
            List.filter_eq_nil_iff.mpr fun x hx => by
              rw [List.mem_singleton.mp hx, decide_eq_true_eq]
              exact hk
          rw [hnone, List.append_nil] at hx
          refine h.last k latest hl (hin.resolve_right fun hin => ?_) x hx
          obtain ⟨a,ha,hak⟩ := mem_callsOn.mp (List.mem_of_getLast? hl)
          rw [List.mem_singleton.mp hin] at ha
          cases hn.symm.trans ha
          exact hk hak

private theorem sound_echo {n : Nat} {ts : Int} (h : b.Sound names) (hs : b.step names (.echo n ts) = some b') :
    b'.Sound names := by
  simp only [step] at hs
  split at hs
  · cases hs
  · rename_i call id ticket hn
    split at hs
    · cases hs
      have hnumbered := numbered_append h.numbered (ticketRoom (names.text ticket.tenantId) (names.text id)) .ticketUpdated
        (ticketSnapshot id ticket) ts
      refine ⟨h.covered,hnumbered,h.newest,h.snapshots,?_,fun e he => ?_,h.last⟩
      · exact h.inOrder.trans (List.sublist_append_left _ _)
      · rcases List.mem_append.mp he with he | he
        · exact h.elsewhere e he
        · rw [List.mem_singleton.mp he]
          exact .inr ⟨_,_,rfl⟩
    · cases hs

private theorem sound_step {a : BoardAction ι} (h : b.Sound names) (hok : b.timely a = true)
    (hs : b.step names a = some b') : b'.Sound names := by
  cases a with
  | server m =>
    obtain ⟨server,hserver,rfl⟩ := Option.map_eq_some_iff.mp hs
    exact sound_server h hserver
  | announce n ts => exact sound_announce h hok hs
  | echo n ts => exact sound_echo h hs

private theorem sound_initial {d : Desk ι} {options : EventLogOptions} (hquiet : ∀ k, d.tickets.pending k = none) :
    (initial d options).Sound names where
  covered := by
    refine ⟨trivial,fun i _ k => ?_,fun i x hx => (by cases hx)⟩
    refine (Table.own_eq_none_iff _ _ _).mpr fun r hp => ?_
    cases (hquiet k).symm.trans hp
  numbered := numbered_new options
  newest _ _ _ hl := by cases hl
  snapshots _ hx := by cases hx
  inOrder := List.Sublist.refl _
  elsewhere _ he := by cases he
  last _ _ hl := by cases hl

/-- Of two snapshots of one Ticket in one room, the one announced later has the higher number. -/
private theorem seq_lt_of_announced {e e' : Envelope TicketSnapshot} {before : List (Nat × Envelope TicketSnapshot)}
    {n : Nat} (h : b.Sound names) (hroom : e.room = e'.room)
    (hsplit : b.announced.filter (fun x => x.2.data.id = k) = before ++ [(n, e')]) (he : e ∈ before.map Prod.snd) :
    e.seq < e'.seq := by
  have hsub : (before.map Prod.snd ++ [e']).Sublist b.published := by
    have hfiltered := (List.filter_sublist (p := fun x => decide (x.2.data.id = k)) (l := b.announced)).map Prod.snd
    rw [hsplit, List.map_append] at hfiltered
    exact hfiltered.trans h.inOrder
  have hpair := h.numbered.increasing e'.room
  rw [List.pairwise_map] at hpair
  have hroomSub := hsub.filter fun x => decide (x.room = e'.room)
  have hlist := hpair.sublist hroomSub
  rw [List.filter_append, List.pairwise_append] at hlist
  refine hlist.2.2 e (List.mem_filter.mpr ⟨he,by simpa using hroom⟩) e' ?_
  simp

/-- Every run in which no snapshot comes after the newest one of its Ticket: once all calls have
returned, the dashboard has been told last what the Ticket is. -/
theorem converged_of_run {d : Desk ι} {options : EventLogOptions} {acts : List (BoardAction ι)}
    (hquiet : ∀ k, d.tickets.pending k = none)
    (hr : Run (step names) (fun b a => b.timely a = true) (initial d options) acts b) (hdone : b.AllReturned) :
    b.Converged names := by
  have h : b.Sound names := hr.invariant (sound_initial hquiet) fun _ _ _ ht hok hs => sound_step ht hok hs
  intro k r e hcommitted he htells hhighest
  obtain ⟨hroom,hevent,hk⟩ := htells
  have hannounced : e ∈ b.announced.map Prod.snd := by
    refine (h.elsewhere e he).resolve_right ?_
    rintro ⟨t,id,hother⟩
    exact ticketRoom_ne_agentsRoom (names.uuid id) _ (hother.symm.trans hroom)
  obtain ⟨x,hx,rfl⟩ := List.mem_map.mp hannounced
  have hon : x ∈ b.announced.filter fun x => x.2.data.id = k := List.mem_filter.mpr ⟨hx,decide_eq_true hk⟩
  obtain ⟨before,⟨m,e'⟩,hsplit⟩ := (List.eq_nil_or_concat _).resolve_left (List.ne_nil_of_mem hon)
  rw [List.concat_eq_append] at hsplit
  have hlastMem : (m, e') ∈ b.announced.filter fun x => x.2.data.id = k := by rw [hsplit]; simp
  obtain ⟨call,id,r',hm,hroom',hevent',hdata'⟩ := h.snapshots _ (List.mem_filter.mp hlastMem).1
  have hid : id = k := by
    have hid := of_decide_eq_true (List.mem_filter.mp hlastMem).2
    rwa [hdata'] at hid
  subst hid
  -- the last one announced is the last one to have committed
  obtain ⟨latest,hlatest⟩ : ∃ latest, (callsOn b.server.answers id).getLast? = some latest := by
    refine Option.ne_none_iff_exists'.mp fun hnone => ?_
    exact List.ne_nil_of_mem (mem_callsOn.mpr ⟨_,hm,rfl⟩) (List.getLast?_eq_none_iff.mp hnone)
  obtain ⟨_,hlt,_⟩ := mem_callsOn.mp (List.mem_of_getLast? hlatest)
  have hreturned := of_decide_eq_true (hdone.2 latest (List.getElem?_eq_some_iff.mp hlt).1)
  have hsame : m = latest := h.last id latest hlatest hreturned.1 (m, e') (by rw [hsplit, List.getLast?_concat])
  subst hsame
  cases hcommitted.symm.trans (h.newest id m _ hlatest hm)
  have htells' : Tells names id r' e' := by
    refine ⟨hroom',?_,by rw [hdata']; rfl⟩
    rw [hevent']
    cases call.edit
    · exact .inl rfl
    · exact .inl rfl
    · exact .inr rfl
  have hle := hhighest e' (h.inOrder.subset (List.mem_map_of_mem (List.mem_filter.mp hlastMem).1)) htells'
  rw [hsplit, List.mem_append, List.mem_singleton] at hon
  rcases hon with hearlier | rfl
  · have hlt := seq_lt_of_announced h (hroom.trans hroom'.symm) hsplit (List.mem_map_of_mem hearlier)
    exact absurd hle (Nat.not_le_of_lt hlt)
  · rw [hdata']
    exact ⟨rfl,rfl,rfl⟩

private def oneName : Names := ⟨fun _ => "4d0e7a1c-2b3f-4a5e-8c9d-0f1e2a3b4c5d",fun _ => by decide +kernel⟩

private def oneTicket : Desk Bool :=
  { Desk.empty with tickets := (Table.empty.insert true (.fresh 1 "printer" 0 .portal none none 0)).commit true }

private theorem oneTicket_quiet (k : Uuid) : oneTicket.tickets.pending k = none := by
  by_cases hk : k = 0
  · subst hk
    rfl
  · simp [oneTicket, Table.commit, Table.insert, Table.own, Table.empty, hk]

private def makes (priority : TicketPriority) : EditCall := ⟨1, .user 7, 0, .setPriority priority, 5⟩

/-- Two calls on the Ticket, the second of which waits for the first one's lock; both commit. -/
private def twoEdits : List (BoardAction Bool) :=
  [BoardAction.server (.begin true (makes .urgent)), .server (.begin false (makes .low))] ++
    List.replicate 6 (BoardAction.server (.advance true)) ++ List.replicate 6 (BoardAction.server (.advance false))

private def publish (n : Nat) : List (BoardAction Bool) := [.announce n 9, .echo n 9]

theorem converged_of_twoEdits : ∃ b : Board Bool, b.Converged oneName ∧ b.AllReturned ∧ b.published.length = 4 ∧
    (b.server.db.tickets.committed 0).map Ticket.priority = some .low := by
  have hrun : (exec (step oneName) (fun b a => b.timely a = true) (initial oneTicket ⟨none, none⟩)
      (twoEdits ++ publish 0 ++ publish 1)).any (fun b => (∀ i, (b.server.sessions i).isNone = true) ∧
        (∀ n, n < b.server.answers.length → b.returned n = true) ∧ b.published.length = 4 ∧
        (b.server.db.tickets.committed 0).map Ticket.priority = some .low) = true := by
    decide +kernel
  obtain ⟨b,hr,hall⟩ := exec_any hrun
  obtain ⟨hclosed,hreturned,hlength,hpriority⟩ := of_decide_eq_true hall
  exact ⟨b,converged_of_run oneTicket_quiet hr ⟨hclosed,hreturned⟩,⟨hclosed,hreturned⟩,hlength,hpriority⟩

/-- The two snapshots are published in the other order, and the dashboard is left with the first. -/
theorem overtaken_not_converged : ¬ ∀ (acts : List (BoardAction Bool)) (b : Board Bool),
    Run (step oneName) Always (initial oneTicket ⟨none, none⟩) acts b → b.AllReturned → b.Converged oneName := by
  intro h
  have hrun : (exec (step oneName) Always (initial oneTicket ⟨none, none⟩) (twoEdits ++ publish 1 ++ publish 0)).any
      (fun b => (∀ i, (b.server.sessions i).isNone = true) ∧ (∀ n, n < b.server.answers.length → b.returned n = true) ∧
        (b.server.db.tickets.committed 0).any fun r => r.priority = .low ∧ b.published.any fun e =>
          e.room = agentsRoom (oneName.text r.tenantId) ∧ e.event = .ticketUpdated ∧ e.data.id = 0 ∧ e.data.priority = .urgent ∧
            b.published.all fun e' => e'.seq ≤ e.seq) = true := by
    decide +kernel
  obtain ⟨b,hr,hall⟩ := exec_any hrun
  obtain ⟨hclosed,hreturned,hticket⟩ := of_decide_eq_true hall
  obtain ⟨r,hr',hlow⟩ := (Option.any_eq_true _ _).mp hticket
  obtain ⟨hlow,hpublished⟩ := of_decide_eq_true hlow
  obtain ⟨e,he,hstale⟩ := List.any_eq_true.mp hpublished
  obtain ⟨hroom,hevent,hid,hurgent,hhighest⟩ := of_decide_eq_true hstale
  have hconverged := h _ b hr ⟨hclosed,hreturned⟩ 0 r e hr' he ⟨hroom,.inl hevent,hid⟩ fun e' he' _ =>
    of_decide_eq_true (List.all_eq_true.mp hhighest e' he')
  rw [hurgent, hlow] at hconverged
  cases hconverged.2.1

end Board

end Nivara.Realtime
