import Nivara.Tickets.Serial

/-! A Message whose delivery is recorded and that is dispatched again, from
`outbound/outbound-dispatch.service.ts`. The duplicate is found by a statement that fails, and the failure of a
statement aborts the transaction it is in, whatever the code makes of the error. -/
namespace Nivara.Tickets
open Transactions

section Redispatch
variable {ι : Type} [DecidableEq ι] (d : Desk ι) (i : ι) (ctx : TenantContext) (id : Uuid) (message : Entry)

def Desk.routed : Option String :=
  (d.sees i ctx message.ticketId).bind fun r => Slack.routeFor r.slackChannelId r.slackThreadTs

/-- A delivery of the Message is recorded, and it is the one the Message has a route for if it has one. -/
def Desk.Delivered : Prop :=
  ∃ k target, d.deliveries.visible i k = some ⟨ctx.tenantId, id, target⟩ ∧ ∀ t ∈ d.routed i ctx message, t = target

/-- The dispatch returns, writes nothing, and the transaction goes on as if it had not been made. -/
def DispatchHarmless : Prop :=
  ∀ (β : Type) (rest : Tx β) (n : ℕ), ((dispatchIn id message).bind fun _ => rest).alone (deskEngine ι) i ctx (n + 1) d =
    rest.alone (deskEngine ι) i ctx (n + 1) d

end Redispatch

section Results
variable {ι : Type} [DecidableEq ι] {d : Desk ι} {i : ι} {ctx : TenantContext} {id : Uuid} {message : Entry}

/-- A recorded delivery is never recorded again: the statement waits or is refused. -/
private theorem ask_insertDelivery_recorded {k : Uuid} {target : String} (n : ℕ)
    (h : d.deliveries.visible i k = some ⟨ctx.tenantId, id, target⟩) (c : Cursor) :
    (deskEngine ι).ask i ctx (.insertDelivery id target) (n + 1) d c = none ∨
    ∃ e, (deskEngine ι).ask i ctx (.insertDelivery id target) (n + 1) d c = some (d, .error e) := by
  have hk : (List.range d.deliveries.size).any (fun k => d.deliveries.visible i k = some ⟨ctx.tenantId, id, target⟩) = true :=
    List.any_eq_true.mpr ⟨k,List.mem_range.mpr (Table.lt_size_of_visible _ _ _ h),by simpa using h⟩
  simp only [Engine.ask, deskEngine, Desk.resume, Desk.resumeInsertDelivery, hk, if_true]
  split_ifs
  · exact .inr ⟨_,rfl⟩
  · exact .inr ⟨_,rfl⟩
  · exact .inl rfl
  · exact .inr ⟨_,rfl⟩

private def deliver (id : Uuid) : Option String → Tx Unit
  | none => pure ()
  | some target => .exec (.insertDelivery id target) fun
    | .error .uniqueViolation => pure ()
    | .error e => .fail (.sql e)
    | .ok _ => Tx.run (.enqueue id target) .sql

private theorem alone_dispatchIn (hc : message.author.isContact = false) {β : Type} (rest : Tx β) (n : ℕ) :
    ((dispatchIn id message).bind fun _ => rest).alone (deskEngine ι) i ctx (n + 1) d =
      ((deliver id (d.routed i ctx message)).bind fun _ => rest).alone (deskEngine ι) i ctx (n + 1) d := by
  have hbind : (dispatchIn id message).bind (fun _ => rest) = Tx.findUnique message.ticketId >>= fun ticket =>
      (deliver id (ticket.bind fun r => Slack.routeFor r.slackChannelId r.slackThreadTs)).bind fun _ => rest := by
    simp only [dispatchIn, hc, Bool.false_eq_true, if_false, Script.bind_def, Script.bind_assoc]
    rfl
  rw [hbind, alone_findUnique]
  rfl

/-- A second dispatch is harmless exactly when there is nothing to dispatch: the Message is a Contact's, or its
Ticket has no route. -/
theorem dispatch_harmless_iff (h : d.Delivered i ctx id message) :
    DispatchHarmless d i ctx id message ↔ message.author.isContact = true ∨ d.routed i ctx message = none := by
  constructor
  · intro hharmless
    by_contra hnot
    obtain ⟨hc,hroute⟩ := not_or.mp hnot
    obtain ⟨target,htarget⟩ := Option.ne_none_iff_exists'.mp hroute
    obtain ⟨k,target',hk,hsame⟩ := h
    obtain rfl := hsame target htarget
    -- a transaction with nothing left to do but to commit
    have hcommit := hharmless Unit (.done ()) 0
    rw [alone_dispatchIn (by simpa using hc), htarget] at hcommit
    rcases ask_insertDelivery_recorded 0 hk ((deskEngine ι).start d i ctx (.insertDelivery id target)) with hwait | ⟨e,he⟩
    · simp only [deliver, Script.exec_bind, Script.alone, hwait] at hcommit
      cases hcommit
    · rw [deliver, Script.exec_bind, Script.alone_of_refusal he] at hcommit
      cases congrArg (Option.map Prod.snd) hcommit
  · intro hnothing β rest n
    by_cases hc : message.author.isContact = true
    · rw [dispatchIn_contact hc]
      rfl
    · rw [alone_dispatchIn (by simpa using hc), hnothing.resolve_left hc]
      rfl

end Results

private def delivered (route : Option (String × String)) : Desk Unit :=
  { Desk.empty with
    tickets := .ofList [Ticket.fresh 1 "printer" 0 .slack none route 0]
    messages := .ofList [⟨1, 0, "Is it on?", .user 7, 5⟩]
    deliveries := .ofList [⟨1, 0, Slack.slackTarget "C1" "1.0"⟩] }

/-- Without a route nothing is sent again. -/
theorem dispatch_harmless_unrouted :
    DispatchHarmless (delivered none) () ⟨1, .user 7, 9⟩ 0 ⟨1, 0, "Is it on?", .user 7, 5⟩ :=
  (dispatch_harmless_iff ⟨0,_,rfl,by decide⟩).mpr (.inr rfl)

/-- An agent writes a Note and the Message is dispatched again: the code returns, and the Note is gone. -/
theorem redispatch_loses_note : ∃ d' : Desk Unit,
    (delivered (some ("C1", "1.0"))).Delivered () ⟨1, .user 7, 9⟩ 0 ⟨1, 0, "Is it on?", .user 7, 5⟩ ∧
    ((writeNote 0 "called back" 9).bind fun _ => dispatchIn 0 ⟨1, 0, "Is it on?", .user 7, 5⟩).alone (deskEngine Unit) ()
      ⟨1, .user 7, 9⟩ 2 (delivered (some ("C1", "1.0"))) = some (d', .error none) ∧
    ∀ k, d'.notes.committed k = none := by
  exact ⟨_,⟨0,_,rfl,by decide⟩,rfl,fun _ => rfl⟩

end Nivara.Tickets
