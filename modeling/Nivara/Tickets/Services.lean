import Nivara.Slack.Ingestion
import Nivara.Transactions.Outline

/-! The statements that the services issue, said once for all of them: which columns of a Ticket they
set, and what they stamp new rows with. -/
namespace Nivara.Tickets
open Transactions

def SetsPlainly (plan : Uuid → Ticket → Option (Ticket → Option Ticket)) : Prop :=
  ∀ k r set old new, plan k r = some set → set old = some new →
    new = { old with state := new.state, priority := new.priority, assigneeId := new.assigneeId, updatedAt := new.updatedAt }

/-- A statement of the services, in a transaction whose rows are stamped with `at'`. -/
def Stmt.Plain (at' : Int) : Stmt → Prop
  | .updateTickets plan => SetsPlainly plan
  | .insertTicket row => ∃ tenantId subject contactId source spawnedFrom route,
      row = .fresh tenantId subject contactId source spawnedFrom route at'
  | .insertMessage _ _ t => t = at'
  | .insertNote _ _ t => t = at'
  | .record _ entry t => (∃ state, entry = .created state) ∧ t = at'
  | _ => True

/-- The reads of the services, and their edits at the instant `t`, are among `p`. -/
structure Edits (t : Int) (p : Stmt → Prop) : Prop where
  reads (picks : Uuid → Ticket → Bool) : p (.selectTickets picks)
  edits (matching : Uuid → Ticket → Bool) (data : Ticket → Ticket) (hdata : ∀ r, data r = { r with
      state := (data r).state, priority := (data r).priority, assigneeId := (data r).assigneeId, updatedAt := t }) :
    p (.updateTickets fun k r => if matching k r then some fun r => if matching k r then some (data r) else none else none)

/-- All that the services issue in a transaction whose rows are stamped with `at'` is among `p`. -/
structure Repertoire (at' : Int) (p : Stmt → Prop) : Prop extends Edits at' p where
  tickets (tenantId : Uuid) (subject : String) (contactId : Uuid) (source : TicketSource) (spawnedFrom : Option Uuid)
    (route : Option (String × String)) : p (.insertTicket (.fresh tenantId subject contactId source spawnedFrom route at'))
  created (k : Uuid) (state : TicketState) : p (.record k (.created state) at')
  messages (k : Uuid) (body : String) : p (.insertMessage k body at')
  notes (k : Uuid) (body : String) : p (.insertNote k body at')
  contacts : p .insertContact
  deliveries (n : Uuid) (target : String) : p (.insertDelivery n target)
  jobs (n : Uuid) (target : String) : p (.enqueue n target)

section Scripts
variable {at' t : Int} {p : Stmt → Prop}

namespace Edits

theorem updateMany (h : Edits t p) {matching : Uuid → Ticket → Bool} {data : Ticket → Ticket} {thrown : SqlState → Failure}
    (hdata : ∀ r, data r = { r with
      state := (data r).state, priority := (data r).priority, assigneeId := (data r).assigneeId, updatedAt := t }) :
    (Tx.updateMany matching data thrown).Only p := Script.only_query (h.edits matching data hdata)

theorem findMany (h : Edits t p) {picks : Uuid → Ticket → Bool} : (Tx.findMany picks).Only p := Script.only_query (h.reads picks)

theorem findFirst (h : Edits t p) {picks : Uuid → Ticket → Bool} : (Tx.findFirst picks).Only p :=
  h.findMany.bind fun _ => trivial

theorem findUnique (h : Edits t p) {k : Uuid} : (Tx.findUnique k).Only p := h.findFirst.bind fun _ => trivial

theorem readBack (h : Edits t p) {k : Uuid} : (Tickets.readBack k).Only p := by
  refine h.findUnique.bind fun row => ?_
  cases row with
  | none => trivial
  | some r => trivial

private theorem edited (h : Edits t p) {k : Uuid} {rows : List (Uuid × Ticket)} {e : Failure} :
    (if rows.isEmpty then .fail e else Tickets.readBack k : Tx (Uuid × Ticket)).Only p := by
  split
  · trivial
  · exact h.readBack

theorem transitionIn (h : Edits t p) {permissions : List Permission} {k : Uuid} {to' : TicketState} :
    (Tickets.transitionIn permissions k to' t).Only p := by
  refine h.findUnique.bind fun row => ?_
  cases row with
  | none => trivial
  | some current =>
    simp only
    split
    · trivial
    · exact (h.updateMany fun _ => rfl).bind fun _ => h.edited

theorem setPriority (h : Edits t p) {k : Uuid} {priority : TicketPriority} : (Tickets.setPriority k priority t).Only p :=
  (h.updateMany fun _ => rfl).bind fun _ => h.edited

theorem setAssignee (h : Edits t p) {k : Uuid} {assigneeId : Option Uuid} : (Tickets.setAssignee k assigneeId t).Only p :=
  (h.updateMany fun _ => rfl).bind fun _ => h.edited

end Edits

namespace Repertoire

theorem createIn (h : Repertoire at' p) {tenantId : Uuid} {input : CreateTicketInput} :
    (Tickets.createIn tenantId input at').Only p := by
  refine (Script.only_query (h.tickets ..)).bind fun ticket => ?_
  exact (Script.only_query (h.created ticket.1 ticket.2.state)).bind fun _ => trivial

theorem dispatchIn (h : Repertoire at' p) {n : Uuid} {m : Entry} : (Tickets.dispatchIn n m).Only p := by
  unfold Tickets.dispatchIn
  split
  · trivial
  · refine h.findUnique.bind fun row => ?_
    split
    · trivial
    · refine ⟨h.deliveries ..,fun r => ?_⟩
      cases r with
      | error e => cases e <;> trivial
      | ok a => exact Script.only_query (h.jobs ..)

theorem postIn (h : Repertoire at' p) {k : Uuid} {body : String} : (Tickets.postIn k body at').Only p := by
  have hinsert : (Tx.run (.insertMessage k body at') rethrowMissingTicket).Only p := Script.only_query (h.messages k body)
  refine Script.Only.bind ?_ fun _ => hinsert.bind fun m => h.dispatchIn.bind fun _ => trivial
  refine h.findUnique.bind fun row => ?_
  cases row with
  | none => trivial
  | some r => trivial

theorem writeNote (h : Repertoire at' p) {k : Uuid} {body : String} : (Tickets.writeNote k body at').Only p :=
  Script.only_query (h.notes k body)

private theorem targetForLive (h : Repertoire at' p) {k : Uuid} {ticket : Ticket} : (Tickets.targetForLive k ticket at').Only p := by
  unfold Tickets.targetForLive
  split
  · trivial
  · exact h.transitionIn.bind fun _ => trivial

private theorem targetFor (h : Repertoire at' p) {principal : ContactPrincipal} {k : Uuid} {ticket : Ticket} {source : TicketSource} :
    (Tickets.targetFor principal k ticket source at').Only p := by
  unfold Tickets.targetFor
  split
  · refine h.findFirst.bind fun row => ?_
    cases row with
    | some live => exact h.targetForLive
    | none => exact h.createIn.rethrow.bind fun _ => trivial
  · exact h.targetForLive

theorem reply (h : Repertoire at' p) {principal : ContactPrincipal} {k : Uuid} {body : String} {source : TicketSource} :
    (Tickets.reply principal k body source at').Only p := by
  refine h.findUnique.bind fun row => ?_
  cases row with
  | none => trivial
  | some addressed => exact h.targetFor.bind fun _ => h.postIn.bind fun _ => trivial

theorem openThread (h : Repertoire at' p) {principal : ContactPrincipal} {message : Slack.SlackUtterance} :
    (Slack.openThread principal message at').Only p :=
  h.createIn.bind fun _ => h.postIn.bind fun _ => trivial

end Repertoire
end Scripts

variable {at' : Int}

theorem setsPlainly_updateMany {matching : Uuid → Ticket → Bool} {data : Ticket → Ticket}
    (hdata : ∀ r, data r = { r with
      state := (data r).state, priority := (data r).priority, assigneeId := (data r).assigneeId, updatedAt := (data r).updatedAt }) :
    SetsPlainly fun k r => if matching k r then some fun r => if matching k r then some (data r) else none else none := by
  intro k r set old new hset hnew
  obtain ⟨_,heq⟩ := Option.ite_none_right_eq_some.mp hset
  cases heq
  obtain ⟨_,heq⟩ := Option.ite_none_right_eq_some.mp hnew
  cases heq
  exact hdata old

theorem plain_edits (t : Int) : Edits t (Stmt.Plain at') where
  reads _ := trivial
  edits matching data hdata := setsPlainly_updateMany fun r => by
    rw [hdata]

theorem plain_repertoire : Repertoire at' (Stmt.Plain at') where
  toEdits := plain_edits at'
  tickets _ _ _ _ _ _ := ⟨_,_,_,_,_,_,rfl⟩
  created _ _ := ⟨⟨_,rfl⟩,rfl⟩
  messages _ _ := rfl
  notes _ _ := rfl
  contacts := trivial
  deliveries _ _ := trivial
  jobs _ _ := trivial

end Nivara.Tickets
