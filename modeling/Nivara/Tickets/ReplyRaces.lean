import Nivara.Tickets.Replies

/-! The reply of a Contact beside staff that moves the Ticket. The state that decides between
appending, reopening and spawning is read at the start. A reopening compares it again and a spawn
meets the unique index, but an appending reply is not held up by anything: it lands wherever the
Ticket has gone in the meantime. -/
namespace Nivara.Tickets
open Transactions

variable {ι : Type} [DecidableEq ι]

def TicketState.attended : TicketState → Bool
  | .opened => true
  | .onHold => true
  | _ => false

theorem attended_of_append {s : TicketState} (h : replyOutcomeFor s = .append) : s.attended = true := by
  cases s <;> first | rfl | cases h

/-- What is committed between `d` and `d'` of a Contact's words is on Tickets somebody looks at. -/
def LandsAttended (d d' : Desk ι) : Prop :=
  ∀ n m, d.messages.committed n = none → d'.messages.committed n = some m → m.author.isContact = true →
    ∃ r, d'.tickets.committed m.ticketId = some r ∧ r.state.attended = true

def AnswersAttended (x : ContactReply) (d : Desk ι) : Prop :=
  d.messages.committed x.messageId = some x.message ∧ x.message.ticketId = x.ticketId ∧
    ∃ r, d.tickets.committed x.ticketId = some r ∧ r.state.attended = true

section Runs
variable {s s' : Server deskLanguage Failure (Option ContactReply) ι TenantContext (Desk ι) Cursor (Request Work.Quiet)}
  {acts : List (Move ι (Request Work.Quiet) Event)} {m : Move ι (Request Work.Quiet) Event}

/-- Beside staff and sweeps, in a run in which no appending reply finds its Ticket moved when it
gets the row, every step commits a Contact's words to Tickets that are open or on hold. -/
theorem landsAttended_of_run
    (hr : Run (Server.step (deskEngine ι) (requestService ι Work.Quiet) Desk.world)
      (fun s m => (replyTerms true ι Work.Quiet).admits s m = true) (Server.initial Desk.empty) acts s)
    (hok : (replyTerms true ι Work.Quiet).admits s m = true)
    (hs : s.step (deskEngine ι) (requestService ι Work.Quiet) Desk.world m = some s') :
    LandsAttended s.db s'.db ∧ ∀ principal k₀ body source at' a,
      s'.answers = s.answers ++ [(.reply principal k₀ body source at', a)] → ∃ x, a = some x ∧ AnswersAttended x s'.db := by
  have hcovered : (replyRegime true (fun _ => True) (fun _ => False) Work.Quiet).Covered s :=
    Regime.covered_of_run (fun i d req _ => safe_request (fun _ _ h => h) i d req) upright_empty
      (fun _ => ⟨fun _ => rfl,fun _ => rfl⟩) hr
  rcases committed_of_step hs with ⟨hans,hsame⟩ | ⟨i,x,a,rfl,hx,hscript,hl,hdb,hans⟩
  · refine ⟨fun n m hn hm => ?_,fun principal k₀ body source at' a h => ?_⟩
    · rw [hsame.messages, hn] at hm
      cases hm
    · simp [hans] at h
  · have hpost := Regime.post_of_commit hcovered hok hx hscript hl trivial
    rw [hdb, hans]
    refine ⟨fun n m hn hm hc => ?_,fun principal k₀ body source at' a' h => ?_⟩
    · have ho : s.db.messages.own i n = some m := by
        rcases Table.visible_cases _ _ _ hm with ho | ⟨_,hc⟩
        · exact ho
        · cases hn.symm.trans hc
      obtain ⟨r,hr,happend⟩ := hpost.1 rfl n m ho hc
      exact ⟨r,Table.visible_of_own _ _ _ hr,attended_of_append happend⟩
    · obtain ⟨hreq,rfl⟩ : x.req = .reply principal k₀ body source at' ∧ a = a' := by simpa using h
      obtain ⟨_,hlands⟩ := hpost
      rw [hreq] at hlands
      obtain ⟨y,rfl,hland⟩ := hlands
      obtain ⟨r,hr,happend⟩ := hland.ready
      exact ⟨y,rfl,Table.visible_of_own _ _ _ hland.message,hland.ticket,r,Table.visible_of_own _ _ _ hr,
        attended_of_append (happend rfl)⟩

end Runs

private def asking : Request Work.Quiet :=
  .other ⟨1, .system, do
    let c ← Tx.run .insertContact .sql
    let _ ← createIn 1 ⟨"printer", c, .portal, none, none⟩ 0
    pure none⟩ fun h => by cases h

private def solving : Request Work.Quiet :=
  .other ⟨1, .user 3, do
    let _ ← transitionIn [.ticketTransition] 0 .resolved 1
    pure none⟩ fun h => by cases h

private def replying : Request Work.Quiet := .reply ⟨1, 0⟩ 0 "still broken" .portal 2

private def overtaken : List (Move Bool (Request Work.Quiet) Event) :=
  Move.begin true asking :: List.replicate 7 (Move.advance true) ++ Move.begin true replying :: List.replicate 2 (Move.advance true) ++
    Move.begin false solving :: List.replicate 8 (Move.advance false) ++ List.replicate 4 (Move.advance true)

theorem reply_lands_on_resolved : ¬ ∀ (acts : List (Move Bool (Request Work.Quiet) Event))
    (s s' : Server deskLanguage Failure (Option ContactReply) Bool TenantContext (Desk Bool) Cursor (Request Work.Quiet))
    (m : Move Bool (Request Work.Quiet) Event),
    Run (Server.step (deskEngine Bool) (requestService Bool Work.Quiet) Desk.world) Always (Server.initial Desk.empty)
      acts s →
    s.step (deskEngine Bool) (requestService Bool Work.Quiet) Desk.world m = some s' → LandsAttended s.db s'.db := by
  intro h
  have hrun : (exec (Server.step (deskEngine Bool) (requestService Bool Work.Quiet) Desk.world) Always
      (Server.initial Desk.empty) overtaken).any (fun s =>
        (s.step (deskEngine Bool) (requestService Bool Work.Quiet) Desk.world (.advance true)).any fun s' =>
          s.db.messages.committed 0 = none ∧ s'.db.messages.committed 0 = some ⟨1, 0, "still broken", .contact 0, 2⟩ ∧
            (s'.db.tickets.committed 0).all fun r => r.state = .resolved) = true := by
    decide +kernel
  obtain ⟨s,hs,hany⟩ := exec_any hrun
  obtain ⟨s',hs',hp⟩ := (Option.any_eq_true _ _).mp hany
  obtain ⟨hn,hm,hall⟩ := of_decide_eq_true hp
  obtain ⟨r,hr,hatt⟩ := h _ s s' _ hs hs' 0 _ hn hm rfl
  rw [hr] at hall
  rw [show r.state = .resolved by simpa using hall] at hatt
  cases hatt

/-- The reply when staff comes after it, which then resolves a Ticket with the Message on it. -/
private def unhurried : List (Move Bool (Request Work.Quiet) Event) :=
  Move.begin true asking :: List.replicate 7 (Move.advance true) ++ Move.begin true replying :: List.replicate 2 (Move.advance true) ++
    Move.begin false solving :: List.replicate 2 (Move.advance false) ++ List.replicate 4 (Move.advance true)

theorem landsAttended_of_unhurried : ∃ (s s' : Server deskLanguage Failure (Option ContactReply) Bool TenantContext (Desk Bool)
    Cursor (Request Work.Quiet)),
    s.db.messages.committed 0 = none ∧ s'.db.messages.committed 0 = some ⟨1, 0, "still broken", .contact 0, 2⟩ ∧
      LandsAttended s.db s'.db := by
  have hrun : (exec (Server.step (deskEngine Bool) (requestService Bool Work.Quiet) Desk.world)
      (fun s m => (replyTerms true Bool Work.Quiet).admits s m = true) (Server.initial Desk.empty) unhurried).any (fun s =>
        (replyTerms true Bool Work.Quiet).admits s (.advance true : Move Bool (Request Work.Quiet) Event) ∧
        (s.step (deskEngine Bool) (requestService Bool Work.Quiet) Desk.world (.advance true)).any fun s' =>
          s.db.messages.committed 0 = none ∧ s'.db.messages.committed 0 = some ⟨1, 0, "still broken", .contact 0, 2⟩) =
      true := by
    decide +kernel
  obtain ⟨s,hs,hany⟩ := exec_any hrun
  obtain ⟨hok,hany⟩ := of_decide_eq_true hany
  obtain ⟨s',hs',hp⟩ := (Option.any_eq_true _ _).mp hany
  obtain ⟨hn,hm⟩ := of_decide_eq_true hp
  exact ⟨s,s',hn,hm,(landsAttended_of_run hs hok hs').1⟩

end Nivara.Tickets
