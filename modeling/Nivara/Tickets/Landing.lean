import Nivara.Tickets.Serial

/-! What one reply of a Contact does to a database that nobody else writes: the Message it commits, the
Ticket it lands on, what it announces, and how often `targetFor` and `spawnOrJoinLive` call one another. -/
namespace Nivara.Tickets
open Transactions Tx

inductive Announcement where
  | ticketCreated (id : Uuid) (ticket : Ticket)
  | ticketUpdated (id : Uuid) (ticket : Ticket)
  | messageCreated (id : Uuid) (message : Entry)
  deriving DecidableEq, Repr

def announce (reply : ContactReply) : List Announcement :=
  (if reply.landing = .spawn then [.ticketCreated reply.ticketId reply.ticket] else []) ++
    (if reply.landing = .reopen then [.ticketUpdated reply.ticketId reply.ticket] else []) ++
    [.messageCreated reply.messageId reply.message]

section Nesting
variable (principal : ContactPrincipal) (source : TicketSource) (at' : Int)

/-- `spawnOrJoinLive`, with what it calls for the live Ticket as an argument. -/
def spawnOrJoinLiveBy (nested : Uuid → Ticket → Tx (Option (ReplyOutcome × Uuid × Ticket))) (id : Uuid) (parent : Ticket) :
    Tx (Option (ReplyOutcome × Uuid × Ticket)) := do
  match ← findFirst fun k r => inChainWith id parent k r ∧ r.state ≠ .closed with
  | some live => nested live.1 live.2
  | none =>
    let ticket ← (createIn principal.tenantId ⟨parent.subject, principal.contactId, source, some id, none⟩ at').rethrow
      rethrowChainConflict
    pure (some (.spawn, ticket))

def targetForBy (nested : Uuid → Ticket → Tx (Option (ReplyOutcome × Uuid × Ticket))) (id : Uuid) (ticket : Ticket) :
    Tx (Option (ReplyOutcome × Uuid × Ticket)) :=
  match replyOutcomeFor ticket.state with
  | .append => pure (some (.append, id, ticket))
  | .reopen => do
    let reopened ← transitionIn [] id .opened at'
    pure (some (.reopen, reopened))
  | .spawn => spawnOrJoinLiveBy principal source at' nested id ticket

/-- The recursion of the two with at most `n` nested calls; `none` where one more would be made. -/
def targetForWithin : Nat → Uuid → Ticket → Tx (Option (ReplyOutcome × Uuid × Ticket))
  | 0 => targetForBy principal source at' fun _ _ => pure none
  | n + 1 => targetForBy principal source at' (targetForWithin n)

def replyWithin (n : Nat) (ticketId : Uuid) (body : String) : Tx (Option ContactReply) := do
  match ← findUnique ticketId with
  | none => .fail (AppException.notFound "Ticket")
  | some addressed =>
    match ← targetForWithin principal source at' n ticketId addressed with
    | none => pure none
    | some target =>
      let message ← postIn target.2.1 body at'
      pure (some ⟨target.1, target.2.1, target.2.2, message.1, message.2⟩)

end Nesting

variable {ι : Type} [DecidableEq ι]

/-- A database that no transaction is open on, as its constraints and triggers keep it. -/
structure Desk.AtRest (d : Desk ι) : Prop where
  tickets : ∀ k, d.tickets.pending k = none
  messages : ∀ k, d.messages.pending k = none
  notes : ∀ k, d.notes.pending k = none
  audit : ∀ k, d.audit.pending k = none
  contacts : ∀ k, d.contacts.pending k = none
  deliveries : ∀ k, d.deliveries.pending k = none
  jobs : ∀ k, d.jobs.pending k = none
  rooted : (d.register fun _ => false).Rooted
  whole : ∀ k r, d.tickets.committed k = some r → r.isWhole = true

structure LiveIn (d : Desk ι) (chain k : Uuid) (r : Ticket) : Prop where
  committed : d.tickets.committed k = some r
  live : r.isLive = true
  chain : r.chain k = chain

def Created (d d' : Desk ι) : Prop := ∃ k, d.tickets.committed k = none ∧ (d'.tickets.committed k).isSome = true

def StateChanged (d d' : Desk ι) : Prop :=
  ∃ k r r', d.tickets.committed k = some r ∧ d'.tickets.committed k = some r' ∧ r'.state ≠ r.state

/-- What a reply has done that was committed: `a` is what it returns, and `d'` the database it leaves. -/
structure Replied (d : Desk ι) (principal : ContactPrincipal) (ticketId : Uuid) (addressed : Ticket) (body : String)
    (at' : Int) (a : ContactReply) (d' : Desk ι) : Prop where
  message : a.message = ⟨principal.tenantId, a.ticketId, body, .contact principal.contactId, at'⟩
  new : d.messages.committed a.messageId = none
  messages : d'.messages.committed = Function.update d.messages.committed a.messageId (some a.message)
  /-- The Ticket it is on is of the conversation. -/
  chain : ∃ r, d'.tickets.committed a.ticketId = some r ∧ r.chain a.ticketId = addressed.chain ticketId
  addressedLive : addressed.isLive = true → a.ticketId = ticketId
  joins : addressed.isLive = false → ∀ k r, LiveIn d (addressed.chain ticketId) k r → a.ticketId = k
  spawns : (∀ k r, ¬ LiveIn d (addressed.chain ticketId) k r) → d.tickets.committed a.ticketId = none ∧
    ∃ r, d'.tickets.committed a.ticketId = some r ∧ r.spawnedFromTicketId = some ticketId ∧ r.subject = addressed.subject ∧
      r.slackChannelId = addressed.slackChannelId ∧ r.slackThreadTs = addressed.slackThreadTs ∧ r.priority = .normal ∧
      r.assigneeId = none
  spawn : a.landing = .spawn ↔ Created d d'
  reopen : a.landing = .reopen ↔ StateChanged d d'
  append : a.landing = .append ↔ ¬ Created d d' ∧ ¬ StateChanged d d'
  tellsCreated : (∃ k r, Announcement.ticketCreated k r ∈ announce a) ↔ Created d d'
  tellsUpdated : (∃ k r, Announcement.ticketUpdated k r ∈ announce a) ↔ StateChanged d d'
  others : ∀ k, k ≠ a.ticketId → d'.tickets.committed k = d.tickets.committed k
  notes : d'.notes.committed = d.notes.committed
  contacts : d'.contacts.committed = d.contacts.committed
  deliveries : d'.deliveries.committed = d.deliveries.committed
  jobs : d'.jobs.committed = d.jobs.committed

section Depth
variable {principal : ContactPrincipal} {source : TicketSource} {t : Int} {d : Desk ι} {i : ι} {ctx : TenantContext} {m : Nat}

private theorem targetForBy_live {nested : Uuid → Ticket → Tx (Option (ReplyOutcome × Uuid × Ticket))} {k : Uuid} {r : Ticket}
    (h : r.state ≠ .closed) :
    targetForBy principal source t nested k r = (targetForLive k r t).bind fun target => .done (some target) := by
  unfold targetForBy targetForLive
  cases hs : r.state with
  | closed => exact absurd hs h
  | opened => rfl
  | onHold => rfl
  | pending =>
    simp only [replyOutcomeFor, Script.bind_def, Script.bind_assoc]
    rfl
  | resolved =>
    simp only [replyOutcomeFor, Script.bind_def, Script.bind_assoc]
    rfl

private theorem alone_findFirst {α β : Type} {picks : Uuid → Ticket → Bool} {f : Option (Uuid × Ticket) → Tx α}
    {g : α → Tx β} : ((findFirst picks >>= f).bind g).alone (deskEngine ι) i ctx (m + 1) d =
      ((f ((d.rows i ctx).filter fun p => picks p.1 p.2).head?).bind g).alone (deskEngine ι) i ctx (m + 1) d := rfl

private theorem live_of_found {k : Uuid} {parent : Ticket} {live : Uuid × Ticket}
    (h : ((d.rows i ctx).filter fun p => decide (inChainWith k parent p.1 p.2 ∧ p.2.state ≠ .closed)).head? = some live) :
    d.sees i ctx live.1 = some live.2 ∧ inChainWith k parent live.1 live.2 = true ∧ live.2.state ≠ .closed := by
  obtain ⟨hin,hlive⟩ := List.mem_filter.mp (List.mem_of_mem_head? h)
  exact ⟨Desk.mem_rows.mp hin,of_decide_eq_true hlive⟩

private def land (body : String) (t : Int) (target : ReplyOutcome × Uuid × Ticket) : Tx ContactReply :=
  (postIn target.2.1 body t).bind fun message => .done ⟨target.1, target.2.1, target.2.2, message.1, message.2⟩

private def landWithin (body : String) (t : Int) : Option (ReplyOutcome × Uuid × Ticket) → Tx (Option ContactReply)
  | none => .done none
  | some target => (land body t target).bind fun a => .done (some a)

private theorem targetForWithin_live {k : Uuid} {r : Ticket} (n : Nat) (h : r.state ≠ .closed) :
    targetForWithin principal source t n k r = (targetForLive k r t).bind fun target => .done (some target) := by
  cases n with
  | zero => exact targetForBy_live h
  | succ n => exact targetForBy_live h

private theorem alone_targetForWithin (n : Nat) (k : Uuid) (r : Ticket) (body : String) :
    ((targetForWithin principal source t (n + 1) k r).bind (landWithin body t)).alone (deskEngine ι) i ctx (m + 1) d =
      ((targetFor principal k r source t).bind fun target => (land body t target).bind fun a => .done (some a)).alone
        (deskEngine ι) i ctx (m + 1) d := by
  by_cases hstate : r.state = .closed
  · have hwithin : targetForWithin principal source t (n + 1) k r =
        spawnOrJoinLiveBy principal source t (targetForWithin principal source t n) k r := by
      simp only [targetForWithin, targetForBy, hstate, replyOutcomeFor]
    have htarget : targetFor principal k r source t = spawnOrJoinLive principal k r source t := by
      simp only [targetFor, hstate, replyOutcomeFor]
    rw [hwithin, htarget, spawnOrJoinLiveBy, spawnOrJoinLive, alone_findFirst, alone_findFirst]
    cases hfound : ((d.rows i ctx).filter fun p => decide (inChainWith k r p.1 p.2 ∧ p.2.state ≠ .closed)).head? with
    | some live =>
      simp only [targetForWithin_live n (live_of_found hfound).2.2, Script.bind_assoc]
      rfl
    | none =>
      simp only [Script.bind_def, Script.bind_assoc]
      rfl
  · have htarget : targetFor principal k r source t = targetForLive k r t := by
      unfold targetFor
      cases hs : r.state with
      | closed => exact absurd hs hstate
      | _ => rfl
    rw [targetForWithin_live _ hstate, htarget, Script.bind_assoc]
    rfl

/-- However many nested calls may be made, one is enough. -/
theorem alone_replyWithin (n : Nat) (ticketId : Uuid) (body : String) :
    (replyWithin principal source t (n + 1) ticketId body).alone (deskEngine ι) i ctx (m + 1) d =
      ((reply principal ticketId body source t).bind fun a => .done (some a)).alone (deskEngine ι) i ctx (m + 1) d := by
  have hassoc : (reply principal ticketId body source t).bind (fun a => .done (some a)) = findUnique ticketId >>= fun row =>
      ((match row with
      | none => .fail (AppException.notFound "Ticket")
      | some addressed => (targetFor principal ticketId addressed source t).bind (land body t) : Tx ContactReply).bind
        fun a => .done (some a)) := by
    rw [reply, Script.bind_def, Script.bind_assoc]
    rfl
  rw [replyWithin, hassoc, alone_findUnique, alone_findUnique]
  cases hs : d.sees i ctx ticketId with
  | none => rfl
  | some addressed =>
    simp only [Script.bind_assoc]
    refine Eq.trans ?_ (alone_targetForWithin n ticketId addressed body)
    congr 2
    funext target
    cases target with
    | none => rfl
    | some target => simp only [landWithin, land, Script.bind_assoc]; rfl

end Depth

section Posting
variable {d d' : Desk ι} {i : ι} {principal : ContactPrincipal} {now t : Int} {k : Uuid} {r : Ticket} {n : Nat}

/-- A reply has come to its Ticket `k`, which it sees as `r`; the rest of the database is untouched. -/
private structure Primed (d : Desk ι) (i : ι) (ctx : TenantContext) (k : Uuid) (r : Ticket) (d' : Desk ι) : Prop where
  solo : d'.Solo i
  sees : d'.sees i ctx k = some r
  whole : r.isWhole = true
  others : ∀ k', k' ≠ k → d'.tickets.visible i k' = d.tickets.committed k'
  messages : d'.messages = d.messages
  notes : d'.notes = d.notes
  contacts : d'.contacts = d.contacts
  deliveries : d'.deliveries = d.deliveries
  jobs : d'.jobs = d.jobs

private structure PutOn (d : Desk ι) (k : Uuid) (message : Entry) (r : Ticket) (d' : Desk ι) : Prop where
  tickets : d'.tickets.committed = Function.update d.tickets.committed k (some r)
  messages : d'.messages.committed = Function.update d.messages.committed d.messages.size (some message)
  notes : d'.notes.committed = d.notes.committed
  contacts : d'.contacts.committed = d.contacts.committed
  deliveries : d'.deliveries.committed = d.deliveries.committed
  jobs : d'.jobs.committed = d.jobs.committed

omit [DecidableEq ι] in
private theorem Desk.AtRest.solo (h : d.AtRest) (i : ι) : d.Solo i := by
  intro k p hp
  rw [h.tickets k] at hp
  cases hp

private theorem put_of_primed (hrest : d.AtRest) (h : Primed d i ⟨principal.tenantId, .contact principal.contactId, now⟩ k r d')
    (body : String) (outcome : ReplyOutcome) (shown : Ticket) :
    ∃ d₃ r', (land body t (outcome, k, shown)).alone (deskEngine ι) i ⟨principal.tenantId, .contact principal.contactId, now⟩
        (n + 1) d' = some (d₃, .ok ⟨outcome, k, shown, d.messages.size,
          ⟨principal.tenantId, k, body, .contact principal.contactId, t⟩⟩) ∧
      PutOn d k ⟨principal.tenantId, k, body, .contact principal.contactId, t⟩ r' d₃ ∧ Moves r r' ∧ r'.state = r.state := by
  obtain ⟨d'',r',hrun,hwrote,hmsg,hmoves,hstate⟩ := alone_postIn (n := n) (t := t) (f := fun m =>
    Script.done (ContactReply.mk outcome k shown m.1 m.2)) h.solo h.sees h.whole rfl
  refine ⟨d''.commit i,r',?_,⟨?_,?_,?_,?_,?_,?_⟩,hmoves,hstate⟩
  · rw [← h.messages]
    exact hrun
  · funext j
    show d''.tickets.visible i j = _
    rw [hwrote.tickets, Table.visible_eq_view, Table.view_write _ _ _ (h.solo.free k) (Desk.sees_some.mp h.sees).1,
      ← Table.visible_eq_view]
    by_cases hj : j = k
    · simp [hj]
    · simp [hj, h.others j hj]
  · funext j
    show d''.messages.visible i j = _
    rw [hmsg, h.messages, Table.visible_eq_view, Table.view_insert, ← Table.visible_eq_view,
      Table.visible_of_settled hrest.messages]
    by_cases hj : j = d.messages.size
    · simp [hj]
    · simp [hj]
  · show d''.notes.visible i = _
    rw [hwrote.notes, h.notes, Table.visible_of_settled hrest.notes]
  · show d''.contacts.visible i = _
    rw [hwrote.contacts, h.contacts, Table.visible_of_settled hrest.contacts]
  · show d''.deliveries.visible i = _
    rw [hwrote.deliveries, h.deliveries, Table.visible_of_settled hrest.deliveries]
  · show d''.jobs.visible i = _
    rw [hwrote.jobs, h.jobs, Table.visible_of_settled hrest.jobs]

omit [DecidableEq ι] in
private theorem PutOn.created_iff {message : Entry} (h : PutOn d k message r d') :
    Created d d' ↔ d.tickets.committed k = none := by
  constructor
  · rintro ⟨j,hnone,hsome⟩
    by_cases hj : j = k
    · rwa [← hj]
    · rw [h.tickets, Function.update_of_ne hj, hnone] at hsome
      cases hsome
  · intro hnone
    exact ⟨k,hnone,by rw [h.tickets, Function.update_self]; rfl⟩

omit [DecidableEq ι] in
private theorem PutOn.moved_iff {message : Entry} (h : PutOn d k message r d') :
    StateChanged d d' ↔ ∃ old, d.tickets.committed k = some old ∧ r.state ≠ old.state := by
  constructor
  · rintro ⟨j,old,new,hold,hnew,hne⟩
    by_cases hj : j = k
    · subst hj
      rw [h.tickets, Function.update_self] at hnew
      cases hnew
      exact ⟨old,hold,hne⟩
    · rw [h.tickets, Function.update_of_ne hj, hold] at hnew
      cases hnew
      exact absurd rfl hne
  · rintro ⟨old,hold,hne⟩
    exact ⟨k,old,r,hold,by rw [h.tickets, Function.update_self],hne⟩

end Posting

section Landings
variable {d d' : Desk ι} {i : ι} {principal : ContactPrincipal} {now t : Int} {k ticketId : Uuid} {r addressed : Ticket}
  {body : String} {source : TicketSource} {n : Nat}

omit [DecidableEq ι] in
private theorem replied_of_put {a : ContactReply} (hput : PutOn d a.ticketId a.message r d')
    (hmessage : a.message = ⟨principal.tenantId, a.ticketId, body, .contact principal.contactId, t⟩)
    (hid : a.messageId = d.messages.size) (hchain : r.chain a.ticketId = addressed.chain ticketId)
    (haddressed : addressed.isLive = true → a.ticketId = ticketId)
    (hjoins : addressed.isLive = false → ∀ k r, LiveIn d (addressed.chain ticketId) k r → a.ticketId = k)
    (hspawns : (∀ k r, ¬ LiveIn d (addressed.chain ticketId) k r) → d.tickets.committed a.ticketId = none ∧
      r.spawnedFromTicketId = some ticketId ∧ r.subject = addressed.subject ∧ r.slackChannelId = addressed.slackChannelId ∧
      r.slackThreadTs = addressed.slackThreadTs ∧ r.priority = .normal ∧ r.assigneeId = none)
    (hspawn : a.landing = .spawn ↔ d.tickets.committed a.ticketId = none)
    (hreopen : a.landing = .reopen ↔ ∃ old, d.tickets.committed a.ticketId = some old ∧ r.state ≠ old.state) :
    Replied d principal ticketId addressed body t a d' := by
  have hr : d'.tickets.committed a.ticketId = some r := by rw [hput.tickets, Function.update_self]
  rw [← hput.created_iff] at hspawn
  rw [← hput.moved_iff] at hreopen
  refine ⟨hmessage,?_,?_,⟨r,hr,hchain⟩,haddressed,hjoins,fun hnone => ?_,hspawn,hreopen,?_,?_,?_,fun k hk => ?_,hput.notes,
    hput.contacts,hput.deliveries,hput.jobs⟩
  · rw [hid]
    exact d.messages.committed_fresh _ (Nat.le_refl _)
  · rw [hid]
    exact hput.messages
  · obtain ⟨hfresh,hrest⟩ := hspawns hnone
    exact ⟨hfresh,r,hr,hrest⟩
  · rw [← hspawn, ← hreopen]
    cases a.landing <;> simp
  · rw [← hspawn]
    simp [announce]
  · rw [← hreopen]
    simp [announce]
  · rw [hput.tickets, Function.update_of_ne hk]

variable (hrest : d.AtRest)
  (hone : ∀ k k' r r', d.tickets.committed k = some r → d.tickets.committed k' = some r' → r.isLive = true →
    r'.isLive = true → r.chain k = r'.chain k' → k = k')

include hrest hone in
private theorem replied_on_live (body : String) (hk : d.sees i ⟨principal.tenantId, .contact principal.contactId, now⟩ k = some r)
    (hlive : r.state ≠ .closed) (hchain : r.chain k = addressed.chain ticketId)
    (haddressed : addressed.isLive = true → k = ticketId) :
    ∃ d₃ a, ((targetForLive k r t).bind (land body t)).alone (deskEngine ι) i
        ⟨principal.tenantId, .contact principal.contactId, now⟩ (n + 2) d = some (d₃, .ok a) ∧
      Replied d principal ticketId addressed body t a d₃ := by
  have hvis := (Desk.sees_some.mp hk).1
  have hcom : d.tickets.committed k = some r := by rwa [Table.visible_of_settled hrest.tickets] at hvis
  have hw := hrest.whole k r hcom
  have hisLive : r.isLive = true := by simpa [Ticket.isLive] using hlive
  have hjoins : addressed.isLive = false → ∀ k' r', LiveIn d (addressed.chain ticketId) k' r' → k = k' :=
    fun _ k' r' h => hone k k' r r' hcom h.committed hisLive h.live (hchain.trans h.chain.symm)
  have hthis : LiveIn d (addressed.chain ticketId) k r := ⟨hcom,hisLive,hchain⟩
  have hreplied : ∀ {d₃ : Desk ι} {r' : Ticket} {outcome : ReplyOutcome} {shown : Ticket},
      PutOn d k ⟨principal.tenantId, k, body, .contact principal.contactId, t⟩ r' d₃ → Moves r r' → outcome ≠ .spawn →
      (outcome = .reopen ↔ r'.state ≠ r.state) → Replied d principal ticketId addressed body t ⟨outcome, k, shown,
        d.messages.size, ⟨principal.tenantId, k, body, .contact principal.contactId, t⟩⟩ d₃ := by
    intro d₃ r' outcome shown hput hmoves hne hreopen
    refine replied_of_put hput rfl rfl ?_ haddressed hjoins (fun hnone => absurd hthis (hnone k r)) ?_ ?_
    · rw [← hchain]
      simp [Ticket.chain, hmoves.root]
    · simp [hcom, hne]
    · simp [hcom, hreopen]
  have happend : ∃ d₃ a, (land body t (.append, k, r)).alone (deskEngine ι) i
      ⟨principal.tenantId, .contact principal.contactId, now⟩ (n + 2) d = some (d₃, .ok a) ∧
      Replied d principal ticketId addressed body t a d₃ := by
    have hprimed : Primed d i ⟨principal.tenantId, .contact principal.contactId, now⟩ k r d :=
      ⟨hrest.solo i,hk,hw,fun _ _ => by rw [Table.visible_of_settled hrest.tickets],rfl,rfl,rfl,rfl,rfl⟩
    obtain ⟨d₃,r',hrun,hput,hmoves,hstate⟩ := put_of_primed (n := n + 1) (t := t) hrest hprimed body .append r
    exact ⟨d₃,_,hrun,hreplied hput hmoves (by simp) (by simp [hstate])⟩
  have hreopens : ticketTransitionIsLegal r.state .opened = true → TicketState.opened ≠ r.state →
      ∃ d₃ a, (((transitionIn [] k .opened t).bind fun ticket => .done (.reopen, ticket)).bind (land body t)).alone
        (deskEngine ι) i ⟨principal.tenantId, .contact principal.contactId, now⟩ (n + 2) d = some (d₃, .ok a) ∧
      Replied d principal ticketId addressed body t a d₃ := by
    intro hlegal hne
    rw [Script.bind_assoc]
    obtain ⟨d₁,r₁,hrun₁,hwrote,hmsg,hmoves₁,hstate₁⟩ := alone_transitionIn (n := n) (t := t)
      (f := fun ticket => land body t (.reopen, ticket)) (hrest.solo i) hk hw (by decide) hlegal
    have hprimed : Primed d i ⟨principal.tenantId, .contact principal.contactId, now⟩ k r₁ d₁ := by
      refine ⟨hwrote.solo (hrest.solo i),hwrote.sees hk hmoves₁,by rw [hmoves₁.isWhole, hw],fun k' hk' => ?_,hmsg,
        hwrote.notes,hwrote.contacts,hwrote.deliveries,hwrote.jobs⟩
      rw [hwrote.tickets, Table.visible_eq_view, Table.view_write _ _ _ ((hrest.solo i).free k) hvis,
        ← Table.visible_eq_view, Table.visible_of_settled hrest.tickets]
      simp [hk']
    obtain ⟨d₃,r',hrun,hput,hmoves,hstate⟩ := put_of_primed (n := n + 1) (t := t) hrest hprimed body .reopen r₁
    simp only [Script.done_bind, hrun₁]
    exact ⟨d₃,_,hrun,hreplied hput (hmoves₁.trans hmoves) (by simp) (by simp [hstate, hstate₁, hne])⟩
  unfold targetForLive
  cases hstate : r.state with
  | opened => exact happend
  | onHold => exact happend
  | pending => exact hreopens (by rw [hstate]; rfl) (by simp [hstate])
  | resolved => exact hreopens (by rw [hstate]; rfl) (by simp [hstate])
  | closed => exact absurd hstate hlive

include hrest in
private theorem primed_of_insert (audit : Table ι AuditEntry) {ctx : TenantContext} (hv : r.visibleTo ctx = true)
    (hw : r.isWhole = true) :
    Primed d i ctx d.tickets.size r { d with tickets := d.tickets.insert i r, audit := audit } where
  solo k p hp := by
    have ho : (d.tickets.insert i r).own p.1 k = some p.2 := (Table.own_eq_some_iff _ _ _).mpr hp
    rcases Table.own_insert_cases _ _ _ _ ho with ⟨_,hi,_⟩ | ho
    · exact hi
    · have hpend := (Table.own_eq_some_iff _ _ _).mp ho
      rw [hrest.tickets k] at hpend
      cases hpend
  sees := Desk.sees_some.mpr ⟨Table.visible_of_own _ _ _ (Table.own_insert_self _ _ _),hv⟩
  whole := hw
  others k' hk' := by
    show (d.tickets.insert i r).visible i k' = _
    rw [Table.visible_eq_view, Table.view_insert, if_neg hk', ← Table.visible_eq_view,
      Table.visible_of_settled hrest.tickets]
  messages := rfl
  notes := rfl
  contacts := rfl
  deliveries := rfl
  jobs := rfl

include hrest in
/-- A spawn that the unique index lets in finds no Ticket of the chain live, whoever sees it. -/
private theorem noneLive_of_admitted {ctx : TenantContext} {row : Ticket} (hadm : Admitted d i ctx row r)
    (hcom : d.tickets.committed ticketId = some addressed) (hten : r.tenantId = addressed.tenantId)
    (hstate : r.state = .opened) (hchain : r.chain d.tickets.size = addressed.chain ticketId) :
    ∀ k r', ¬ LiveIn d (addressed.chain ticketId) k r' := by
  intro k r' h
  have hsame : r'.tenantId = addressed.tenantId := by
    have hx : (d.register fun _ => false).tickets ticketId = some addressed := by simpa using hcom
    have hk : (d.register fun _ => false).tickets k = some r' := by simpa using h.committed
    exact hrest.rooted.tenant hx hk h.chain
  have hconflict : conflicts d.tickets.size r k r' = true := by
    simp [conflicts, sharesChain, Ticket.isLive, hstate, hten, hsame, hchain, h.chain]
    exact .inl (by simpa [Ticket.isLive] using h.live)
  have hcollides := hadm.unique k (Table.lt_size_of_committed _ _ h.committed)
  simp [Desk.collides, Table.visible_of_settled hrest.tickets, h.committed, hconflict] at hcollides

include hrest in
/-- A reply to a closed Ticket that sees none of the chain live: a Ticket is spawned, or nothing happens. -/
private theorem replied_by_spawn (body : String) (source : TicketSource)
    (hs : d.sees i ⟨principal.tenantId, .contact principal.contactId, now⟩ ticketId = some addressed)
    (hclosed : addressed.state = .closed) {g : Failure → Failure} :
    (∃ e, (((createIn principal.tenantId ⟨addressed.subject, principal.contactId, source, some ticketId, none⟩ t).rethrow
        g).bind fun ticket => land body t (.spawn, ticket)).alone (deskEngine ι) i
        ⟨principal.tenantId, .contact principal.contactId, now⟩ (n + 1) d = some (d.rollback i, .error e)) ∨
    ∃ d₃ a, (((createIn principal.tenantId ⟨addressed.subject, principal.contactId, source, some ticketId, none⟩ t).rethrow
        g).bind fun ticket => land body t (.spawn, ticket)).alone (deskEngine ι) i
        ⟨principal.tenantId, .contact principal.contactId, now⟩ (n + 1) d = some (d₃, .ok a) ∧
      Replied d principal ticketId addressed body t a d₃ := by
  rcases alone_createIn_cases (n := n) (t := t) (g := g) (f := fun ticket => land body t (.spawn, ticket)) (hrest.solo i)
    with ⟨e,hrun⟩ | ⟨r,audit,hadm,hrun₁⟩
  · exact .inl ⟨e,hrun⟩
  obtain ⟨hvis,hto⟩ := Desk.sees_some.mp hs
  have hcom : d.tickets.committed ticketId = some addressed := by rwa [Table.visible_of_settled hrest.tickets] at hvis
  simp only [Ticket.visibleTo, decide_eq_true_eq] at hto
  -- the triggers give the row its root and its route
  have hr : r = { Ticket.fresh principal.tenantId addressed.subject principal.contactId source (some ticketId) none t with
      rootTicketId := some (addressed.chain ticketId)
      slackChannelId := addressed.slackChannelId
      slackThreadTs := addressed.slackThreadTs } := by
    have hlink := hadm.linkage
    simp only [enforceLinkageOnInsert, Ticket.fresh, hs, Option.filter, hto.1, decide_true, if_true] at hlink
    exact (Except.ok.inj hlink).symm
  have hchain : r.chain d.tickets.size = addressed.chain ticketId := by rw [hr]; rfl
  have hnone := noneLive_of_admitted hrest hadm hcom (by rw [hr]; exact hto.1.symm) (by rw [hr]; rfl) hchain
  have hfresh : d.tickets.committed d.tickets.size = none := d.tickets.committed_fresh _ (Nat.le_refl _)
  have hprimed := primed_of_insert (i := i) hrest audit hadm.visible hadm.whole
  obtain ⟨d₃,r',hrun,hput,hmoves,hstate⟩ := put_of_primed (n := n) (t := t) hrest hprimed body .spawn r
  refine .inr ⟨d₃,_,hrun₁.trans hrun,replied_of_put hput rfl rfl ?_ ?_ (fun _ k r h => absurd h (hnone k r)) (fun _ => ?_) ?_ ?_⟩
  · rw [← hchain]
    simp [Ticket.chain, hmoves.root]
  · intro hlive
    simp [Ticket.isLive, hclosed] at hlive
  · refine ⟨hfresh,?_,?_,?_,?_,?_,?_⟩
    · rw [hmoves.spawnedFrom, hr]
      rfl
    · rw [hmoves.subject, hr]
      rfl
    · rw [hmoves.channel, hr]
    · rw [hmoves.thread, hr]
    · rw [hmoves.priority, hr]
      rfl
    · rw [hmoves.assignee, hr]
      rfl
  · simp [hfresh]
  · simp [hfresh]

include hrest in
omit hone in
private theorem rollback_atRest (i : ι) : d.rollback i = d := by
  rw [Desk.rollback, Table.rollback_of_settled hrest.tickets, Table.rollback_of_settled hrest.messages,
    Table.rollback_of_settled hrest.notes, Table.rollback_of_settled hrest.audit, Table.rollback_of_settled hrest.contacts,
    Table.rollback_of_settled hrest.deliveries, Table.rollback_of_settled hrest.jobs]

private def Ends (d : Desk ι) (principal : ContactPrincipal) (ticketId : Uuid) (body : String) (t : Int) (d' : Desk ι) :
    Except (Option Failure) ContactReply → Prop
  | .error _ => d' = d
  | .ok a => ∃ addressed, d.tickets.committed ticketId = some addressed ∧ addressed.tenantId = principal.tenantId ∧
      addressed.contactId = principal.contactId ∧ Replied d principal ticketId addressed body t a d'

include hrest hone in
private theorem ends_of_addressed
    (hs : d.sees i ⟨principal.tenantId, .contact principal.contactId, now⟩ ticketId = some addressed) :
    ∃ d' res, ((targetFor principal ticketId addressed source t).bind (land body t)).alone (deskEngine ι) i
        ⟨principal.tenantId, .contact principal.contactId, now⟩ (n + 2) d = some (d', res) ∧
      Ends d principal ticketId body t d' res := by
  obtain ⟨hvis,hto⟩ := Desk.sees_some.mp hs
  have hcom : d.tickets.committed ticketId = some addressed := by rwa [Table.visible_of_settled hrest.tickets] at hvis
  simp only [Ticket.visibleTo, Actor.reaches, decide_eq_true_eq] at hto
  by_cases hstate : addressed.state = .closed
  · have htarget : targetFor principal ticketId addressed source t = spawnOrJoinLive principal ticketId addressed source t := by
      simp only [targetFor, hstate, replyOutcomeFor]
    rw [htarget, spawnOrJoinLive, alone_findFirst]
    cases hfound : ((d.rows i ⟨principal.tenantId, .contact principal.contactId, now⟩).filter fun p =>
        decide (inChainWith ticketId addressed p.1 p.2 ∧ p.2.state ≠ .closed)).head? with
    | some live =>
      obtain ⟨hlive,hin,hopen⟩ := live_of_found hfound
      have hcomlive : d.tickets.committed live.1 = some live.2 := by
        have := (Desk.sees_some.mp hlive).1
        rwa [Table.visible_of_settled hrest.tickets] at this
      have hx : (d.register fun _ => false).tickets ticketId = some addressed := by simpa using hcom
      have hl : (d.register fun _ => false).tickets live.1 = some live.2 := by simpa using hcomlive
      have hchain := (hrest.rooted.inChainWith_iff hx hl).mp hin
      obtain ⟨d₃,a,hrun,hreplied⟩ := replied_on_live (t := t) (n := n) hrest hone body hlive hopen hchain
        fun h => by simp [Ticket.isLive, hstate] at h
      exact ⟨d₃,_,hrun,addressed,hcom,hto.1,hto.2,hreplied⟩
    | none =>
      simp only [Script.bind_def, Script.bind_assoc, Script.pure_def, Script.done_bind]
      rcases replied_by_spawn (t := t) (n := n + 1) (g := rethrowChainConflict) hrest body source hs hstate with ⟨e,hrun⟩ | ⟨d₃,a,hrun,hreplied⟩
      · exact ⟨_,_,hrun,rollback_atRest hrest i⟩
      · exact ⟨d₃,_,hrun,addressed,hcom,hto.1,hto.2,hreplied⟩
  · have htarget : targetFor principal ticketId addressed source t = targetForLive ticketId addressed t := by
      unfold targetFor
      cases hs : addressed.state with
      | closed => exact absurd hs hstate
      | _ => rfl
    rw [htarget]
    obtain ⟨d₃,a,hrun,hreplied⟩ := replied_on_live (t := t) (n := n) hrest hone body hs hstate rfl fun _ => rfl
    exact ⟨d₃,_,hrun,addressed,hcom,hto.1,hto.2,hreplied⟩

end Landings

/-- What a reply does, exactly: it fails and the database is as it was, or its Message is committed on the
one Ticket it belongs to; either way one nested call is enough. -/
theorem reply_exactly (d : Desk ι) (hrest : d.AtRest)
    (hone : ∀ k k' r r', d.tickets.committed k = some r → d.tickets.committed k' = some r' → r.isLive = true →
      r'.isLive = true → r.chain k = r'.chain k' → k = k')
    (i : ι) (n : Nat) (principal : ContactPrincipal) (ticketId : Uuid) (body : String) (source : TicketSource) (now t : Int) :
    ∃ d' res, (reply principal ticketId body source t).alone (deskEngine ι) i
        ⟨principal.tenantId, .contact principal.contactId, now⟩ (n + 2) d = some (d', res) ∧
      (replyWithin principal source t 1 ticketId body).alone (deskEngine ι) i
        ⟨principal.tenantId, .contact principal.contactId, now⟩ (n + 2) d = some (d', res.map some) ∧
      match res with
      | .error _ => d' = d
      | .ok a => ∃ addressed, d.tickets.committed ticketId = some addressed ∧ addressed.tenantId = principal.tenantId ∧
          addressed.contactId = principal.contactId ∧ Replied d principal ticketId addressed body t a d' := by
  obtain ⟨d',res,hrun,hends⟩ : ∃ d' res, (reply principal ticketId body source t).alone (deskEngine ι) i
      ⟨principal.tenantId, .contact principal.contactId, now⟩ (n + 2) d = some (d', res) ∧
      Ends d principal ticketId body t d' res := by
    rw [reply, alone_findUnique]
    cases hs : d.sees i ⟨principal.tenantId, .contact principal.contactId, now⟩ ticketId with
    | none => exact ⟨_,_,rfl,rollback_atRest hrest i⟩
    | some addressed => exact ends_of_addressed hrest hone hs
  refine ⟨d',res,hrun,?_,?_⟩
  · rw [alone_replyWithin 0, Script.alone_map, hrun]
    rfl
  · cases res with
    | error e => exact hends
    | ok a => exact hends

private def continued : Desk Unit :=
  { Desk.empty with
    contacts := .ofList [⟨1, none⟩]
    tickets := .ofList [{ Ticket.fresh 1 "printer" 0 .portal none none 0 with state := .closed },
      { Ticket.fresh 1 "printer" 0 .portal (some 0) none 5 with state := .pending, rootTicketId := some 0 }] }

private theorem continued_tickets {k : Uuid} {r : Ticket} (h : continued.tickets.committed k = some r) :
    (k = 0 ∧ r = { Ticket.fresh 1 "printer" 0 .portal none none 0 with state := .closed }) ∨
    (k = 1 ∧ r = { Ticket.fresh 1 "printer" 0 .portal (some 0) none 5 with state := .pending, rootTicketId := some 0 }) := by
  match k, h with
  | 0, h => exact .inl ⟨rfl,(Option.some.inj h).symm⟩
  | 1, h => exact .inr ⟨rfl,(Option.some.inj h).symm⟩

/-- The customer replies to the closed Ticket: the reply joins the other one and reopens it. -/
theorem reply_joins_continued : ∃ d' a, (reply ⟨1, 0⟩ 0 "again" .portal 9).alone (deskEngine Unit) () ⟨1, .contact 0, 9⟩ 2
    continued = some (d', .ok a) ∧ a.ticketId = 1 ∧ a.landing = .reopen ∧ StateChanged continued d' := by
  have hrest : continued.AtRest := by
    refine ⟨fun _ => rfl,fun _ => rfl,fun _ => rfl,fun _ => rfl,fun _ => rfl,fun _ => rfl,fun _ => rfl,fun k r hr => ?_,
      fun k r hr => ?_⟩
    · rcases continued_tickets (by simpa using hr) with ⟨rfl,rfl⟩ | ⟨rfl,rfl⟩
      · exact ⟨rfl,fun p hp => by cases hp⟩
      · refine ⟨⟨_,rfl,rfl,rfl,rfl,rfl⟩,fun p hp => ?_⟩
        cases hp
        decide
    · rcases continued_tickets hr with ⟨rfl,rfl⟩ | ⟨rfl,rfl⟩ <;> decide
  have hone : ∀ k k' r r', continued.tickets.committed k = some r → continued.tickets.committed k' = some r' →
      r.isLive = true → r'.isLive = true → r.chain k = r'.chain k' → k = k' := by
    intro k k' r r' hr hr' hl hl' _
    rcases continued_tickets hr with ⟨rfl,rfl⟩ | ⟨rfl,rfl⟩
    · cases hl
    · rcases continued_tickets hr' with ⟨rfl,rfl⟩ | ⟨rfl,rfl⟩
      · cases hl'
      · rfl
  obtain ⟨d',res,hrun,_,hres⟩ := reply_exactly continued hrest hone () 0 ⟨1, 0⟩ 0 "again" .portal 9 9
  have hlanding : ((reply ⟨1, 0⟩ 0 "again" .portal 9).alone (deskEngine Unit) () ⟨1, .contact 0, 9⟩ 2 continued).map (fun x =>
      x.2.toOption.map fun a => (a.ticketId, a.landing)) = some (some (1, .reopen)) := by
    decide +kernel
  rw [hrun] at hlanding
  cases res with
  | error e => cases hlanding
  | ok a =>
    obtain ⟨addressed,_,_,_,hreplied⟩ := hres
    obtain ⟨hid,hreopen⟩ := Prod.mk.inj (Option.some.inj (Option.some.inj hlanding))
    exact ⟨d',a,hrun,hid,hreopen,hreplied.reopen.mp hreopen⟩

end Nivara.Tickets
