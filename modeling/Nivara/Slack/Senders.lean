import Nivara.Tickets.OneLive
import Nivara.Tickets.Serial

/-! Who is ingested. The thread is looked up as the sender's Contact sees it, while the index on
live Tickets of a thread knows no Contacts. A second person who speaks on a thread does not see
the Ticket that is live there, and is kept out by it. -/
namespace Nivara.Slack
open Transactions Tickets Tickets.Tx

section Handler
variable {ι : Type} [DecidableEq ι] {d : Desk ι} {i : ι} {n : Nat} {tenantId contactId : Uuid} {message : SlackUtterance}

structure Settled (d : Desk ι) : Prop where
  tickets : ∀ k, d.tickets.pending k = none
  messages : ∀ k, d.messages.pending k = none
  contacts : ∀ k, d.contacts.pending k = none

/-- The Contact that `contactFor` resolves a Slack account to: the row there is, or the next one. -/
def senderContact (d : Desk ι) (tenantId : Uuid) (slackUserId : String) : Uuid :=
  ((List.range d.contacts.size).find? fun k => d.contacts.committed k = some ⟨tenantId, some slackUserId⟩).getD
    d.contacts.size

def LiveOn (d : Desk ι) (tenantId : Uuid) (message : SlackUtterance) (k : Uuid) (r : Ticket) : Prop :=
  d.tickets.committed k = some r ∧ r.isLive = true ∧ r.tenantId = tenantId ∧
    onThread message.channelId message.threadTs r = true

def OwnThread (d : Desk ι) (tenantId : Uuid) (message : SlackUtterance) : Prop :=
  ∀ k r, LiveOn d tenantId message k r → r.contactId = senderContact d tenantId message.slackUserId

/-- One Message is added, with the sender's text, on the one live Ticket of the thread. -/
structure Ingested (d d' : Desk ι) (tenantId contactId : Uuid) (message : SlackUtterance) (at' : Int) (x : ContactReply) :
    Prop where
  messages : ∀ k, d'.messages.committed k = if k = d.messages.size
    then some ⟨tenantId, x.ticketId, message.text, .contact contactId, at'⟩ else d.messages.committed k
  live : ∃ r, LiveOn d' tenantId message x.ticketId r
  unique : ∀ k r, LiveOn d' tenantId message k r → k = x.ticketId

omit [DecidableEq ι] in
theorem Settled.solo (h : Settled d) (i : ι) : d.Solo i := by
  intro k p hp
  rw [h.tickets k] at hp
  cases hp

/-- A Contact sees its own Tickets. -/
theorem sees_iff (h : Settled d) {now : Int} {k : Uuid} {r : Ticket} :
    d.sees i ⟨tenantId, .contact contactId, now⟩ k = some r ↔
      d.tickets.committed k = some r ∧ r.tenantId = tenantId ∧ r.contactId = contactId := by
  rw [Desk.sees_some, Table.visible_of_settled h.tickets]
  simp [Ticket.visibleTo, Actor.reaches]

/-- The first transaction: the sender has a Contact, and nothing else is touched. -/
theorem alone_contactFor (h : Settled d) (n : Nat) (tenantId : Uuid) (slackUserId : String) (now : Int) :
    ∃ d₁, (contactFor slackUserId).alone (deskEngine ι) i ⟨tenantId, .system, now⟩ (n + 1) d =
        some (d₁, .ok (senderContact d tenantId slackUserId)) ∧
      d₁.tickets = d.tickets ∧ d₁.messages = d.messages ∧ Settled d₁ ∧
      d₁.contacts.committed (senderContact d tenantId slackUserId) = some ⟨tenantId, some slackUserId⟩ := by
  have hvis := Table.visible_of_settled h.contacts i
  cases hfind : (List.range d.contacts.size).find? fun k => d.contacts.committed k = some ⟨tenantId, some slackUserId⟩ with
  | some k =>
    have hask : (deskEngine ι).ask i ⟨tenantId, .system, now⟩ (.upsertContact slackUserId) (n + 1) d
        ((deskEngine ι).start d i ⟨tenantId, .system, now⟩ (.upsertContact slackUserId)) = some (d, .ok k) := by
      simp [Engine.ask, deskEngine, Desk.resume, Desk.resumeUpsertContact, Actor.isContact, hvis, hfind]
    have hk : senderContact d tenantId slackUserId = k := by simp [senderContact, hfind]
    rw [hk]
    refine ⟨d.commit i,Script.alone_of_answer hask,?_,?_,⟨?_,?_,?_⟩,?_⟩
    · exact Table.commit_of_settled h.tickets i
    · exact Table.commit_of_settled h.messages i
    · rw [Desk.commit, Table.commit_of_settled h.tickets i]
      exact h.tickets
    · rw [Desk.commit, Table.commit_of_settled h.messages i]
      exact h.messages
    · rw [Desk.commit, Table.commit_of_settled h.contacts i]
      exact h.contacts
    · rw [Desk.commit, Table.commit_of_settled h.contacts i]
      simpa using List.find?_some hfind
  | none =>
    have hask : (deskEngine ι).ask i ⟨tenantId, .system, now⟩ (.upsertContact slackUserId) (n + 1) d
        ((deskEngine ι).start d i ⟨tenantId, .system, now⟩ (.upsertContact slackUserId)) =
        some ({ d with contacts := d.contacts.insert i ⟨tenantId, some slackUserId⟩ }, .ok d.contacts.size) := by
      simp [Engine.ask, deskEngine, Desk.resume, Desk.resumeUpsertContact, Actor.isContact, hvis, hfind, h.contacts]
    have hk : senderContact d tenantId slackUserId = d.contacts.size := by simp [senderContact, hfind]
    rw [hk]
    refine ⟨Desk.commit { d with contacts := d.contacts.insert i ⟨tenantId, some slackUserId⟩ } i,
      Script.alone_of_answer hask,?_,?_,⟨?_,?_,?_⟩,?_⟩
    · exact Table.commit_of_settled h.tickets i
    · exact Table.commit_of_settled h.messages i
    · rw [Desk.commit, Table.commit_of_settled h.tickets i]
      exact h.tickets
    · rw [Desk.commit, Table.commit_of_settled h.messages i]
      exact h.messages
    · exact Table.settled_insert_commit h.contacts i _
    · exact Table.visible_of_own _ _ _ (Table.own_insert_self _ _ _)

def Found (d : Desk ι) (i : ι) (ctx : TenantContext) (message : SlackUtterance) : Option (Uuid × Ticket) → Prop
  | some x => d.sees i ctx x.1 = some x.2 ∧ onThread message.channelId message.threadTs x.2 = true ∧
      (x.2.state = .closed → ∀ k r, d.sees i ctx k = some r → onThread message.channelId message.threadTs r = true →
        r.state = .closed)
  | none => ∀ k r, d.sees i ctx k = some r → onThread message.channelId message.threadTs r = false

theorem alone_ticketOnThread (n : Nat) (rank : Uuid → Nat) (ctx : TenantContext) (d : Desk ι) (message : SlackUtterance) :
    ∃ existing, (ticketOnThread rank message.channelId message.threadTs).alone (deskEngine ι) i ctx (n + 1) d =
        some (d.commit i, .ok existing) ∧ Found d i ctx message existing := by
  have hrun : (ticketOnThread rank message.channelId message.threadTs).alone (deskEngine ι) i ctx (n + 1) d =
      Script.alone (deskEngine ι) i ctx (n + 1) (match ((d.rows i ctx).filter fun p =>
          decide (onThread message.channelId message.threadTs p.2 ∧ p.2.state ≠ .closed)).head? with
        | some live => .done (some live)
        | none => Tx.findMany (fun _ r => onThread message.channelId message.threadTs r) >>= fun rows =>
          .done (rows.mergeSort (newestFirst rank)).head? : Tx (Option (Uuid × Ticket))) d := rfl
  rw [hrun]
  cases hlive : ((d.rows i ctx).filter fun p =>
      decide (onThread message.channelId message.threadTs p.2 ∧ p.2.state ≠ .closed)).head? with
  | some live =>
    obtain ⟨hin,hp⟩ := List.mem_filter.mp (List.mem_of_mem_head? hlive)
    obtain ⟨hon,hstate⟩ := of_decide_eq_true hp
    exact ⟨some live,rfl,Desk.mem_rows.mp hin,hon,fun hc => absurd hc hstate⟩
  | none =>
    rw [List.head?_eq_none_iff, List.filter_eq_nil_iff] at hlive
    have hclosed : ∀ k r, d.sees i ctx k = some r → onThread message.channelId message.threadTs r = true →
        r.state = .closed := by
      intro k r hs hon
      by_contra hne
      exact hlive (k, r) (Desk.mem_rows.mpr hs) (decide_eq_true ⟨hon,hne⟩)
    refine ⟨_,rfl,?_⟩
    cases hnew : (((d.rows i ctx).filter fun p => onThread message.channelId message.threadTs p.2).mergeSort
        (newestFirst rank)).head? with
    | some x =>
      have hx := List.mem_of_mem_head? hnew
      rw [List.mem_mergeSort, List.mem_filter] at hx
      exact ⟨Desk.mem_rows.mp hx.1,hx.2,fun _ => hclosed⟩
    | none =>
      intro k r hs
      rw [List.head?_eq_none_iff] at hnew
      have hnil : (d.rows i ctx).filter (fun p => onThread message.channelId message.threadTs p.2) = [] := by
        have hperm := List.mergeSort_perm ((d.rows i ctx).filter fun p => onThread message.channelId message.threadTs p.2)
          (newestFirst rank)
        rw [hnew] at hperm
        exact hperm.nil_eq.symm
      rw [List.filter_eq_nil_iff] at hnil
      exact Bool.eq_false_iff.mpr fun hon => hnil (k, r) (Desk.mem_rows.mpr hs) hon

/-- What a Contact's transaction has made of the desk `d` before it posts on Ticket `k`. -/
structure Ready (d : Desk ι) (i : ι) (ctx : TenantContext) (message : SlackUtterance) (k : Uuid) (d' : Desk ι) : Prop where
  solo : d'.Solo i
  messages : d'.messages = d.messages
  target : ∃ r, d'.sees i ctx k = some r ∧ r.isWhole = true ∧ r.isLive = true ∧
    onThread message.channelId message.threadTs r = true
  others : ∀ k', k' ≠ k → d'.tickets.visible i k' = d.tickets.committed k'

/-- The Message is posted, and the transaction is committed. -/
theorem ingested_of_ready {d' : Desk ι} {now t : Int} {k : Uuid} (hset : Settled d)
    (h : Ready d i ⟨tenantId, .contact contactId, now⟩ message k d')
    (hunique : ∀ k' r, LiveOn d tenantId message k' r → k' = k) (f : Uuid × Entry → ContactReply)
    (hf : ∀ m, (f m).ticketId = k) :
    ∃ d₃ x, ((postIn k message.text t).bind fun m => .done (f m)).alone (deskEngine ι) i
        ⟨tenantId, .contact contactId, now⟩ (n + 1) d' = some (d₃, .ok x) ∧
      Ingested d d₃ tenantId contactId message t x := by
  obtain ⟨r,hs,hw,hlive,hon⟩ := h.target
  obtain ⟨d'',r',hrun,hwrote,hmsg,hm,hstate⟩ := alone_postIn (n := n) (t := t) (f := fun m => Script.done (f m)) h.solo hs hw rfl
  refine ⟨d''.commit i,_,hrun,?_⟩
  have hk : (d''.commit i).tickets.committed = fun j => if j = k then some r' else d'.tickets.visible i j := by
    funext j
    show d''.tickets.visible i j = _
    rw [hwrote.tickets, Table.visible_eq_view, Table.view_write _ _ _ (h.solo.free k) (Desk.sees_some.mp hs).1,
      Table.visible_eq_view]
    simp
  refine ⟨fun j => ?_,⟨r',?_⟩,fun j rj hj => ?_⟩
  · show d''.messages.visible i j = _
    rw [hmsg, h.messages, hf, Table.visible_eq_view, Table.view_insert, ← Table.visible_eq_view,
      Table.visible_of_settled hset.messages]
    simp
  · rw [hf]
    refine ⟨by rw [hk]; simp,?_,?_,?_⟩
    · rwa [Ticket.isLive, hstate]
    · have hv := (Desk.sees_some.mp hs).2
      simp only [Ticket.visibleTo, decide_eq_true_eq] at hv
      rw [hm.tenantId, hv.1]
    · rwa [onThread, hm.channel, hm.thread]
  · rw [hf]
    by_contra hne
    obtain ⟨hc,hrest⟩ := hj
    simp only [hk, if_neg hne, h.others j hne] at hc
    exact hne (hunique j rj ⟨hc,hrest⟩)

/-- The whole columns of a Ticket on a thread. -/
theorem isWhole_of_thread {b : Register} (h : b.Rooted) {k : Uuid} {r : Ticket} (hr : b.tickets k = some r)
    (hon : onThread message.channelId message.threadTs r = true) : r.isWhole = true := by
  simp only [onThread, decide_eq_true_eq] at hon
  have hroot := h.root_none hr
  simp only [Ticket.isWhole, hon.1, hon.2, Option.isNone_some, and_true, decide_eq_true_eq]
  cases hsp : r.spawnedFromTicketId with
  | none => simp [hroot.mpr hsp]
  | some p =>
    cases hrt : r.rootTicketId with
    | none => simp [hroot.mp hrt] at hsp
    | some q => rfl

private def landOn (message : SlackUtterance) (t : Int) (target : ReplyOutcome × Uuid × Ticket) : Tx ContactReply :=
  (postIn target.2.1 message.text t).bind fun m => .done ⟨target.1, target.2.1, target.2.2, m.1, m.2⟩

private theorem alone_reply {now t : Int} {x : Uuid × Ticket}
    (hs : d.sees i ⟨tenantId, .contact contactId, now⟩ x.1 = some x.2) :
    (Tickets.reply ⟨tenantId, contactId⟩ x.1 message.text .slack t).alone (deskEngine ι) i
        ⟨tenantId, .contact contactId, now⟩ (n + 2) d =
      ((targetFor ⟨tenantId, contactId⟩ x.1 x.2 .slack t).bind (landOn message t)).alone (deskEngine ι) i
        ⟨tenantId, .contact contactId, now⟩ (n + 2) d := by
  rw [Tickets.reply, alone_findUnique, hs]
  rfl

section Third
variable {now t : Int} {x : Uuid × Ticket} {b : Register}

/-- The third transaction, on a thread where the sender has a Ticket that is live. -/
theorem ingested_of_live (hset : Settled d) (hb : b.Rooted) (hbd : b.tickets = d.tickets.committed)
    (hs : d.sees i ⟨tenantId, .contact contactId, now⟩ x.1 = some x.2) (hlive : x.2.isLive = true)
    (hon : onThread message.channelId message.threadTs x.2 = true)
    (hunique : ∀ k r, LiveOn d tenantId message k r → k = x.1) :
    ∃ d₃ y, (Tickets.reply ⟨tenantId, contactId⟩ x.1 message.text .slack t).alone (deskEngine ι) i
        ⟨tenantId, .contact contactId, now⟩ (n + 2) d = some (d₃, .ok y) ∧
      Ingested d d₃ tenantId contactId message t y := by
  have hvis := (Desk.sees_some.mp hs).1
  have hw : x.2.isWhole = true := isWhole_of_thread hb (by rw [hbd, ← Table.visible_of_settled hset.tickets i]; exact hvis) hon
  have happend : ∃ d₃ y, (landOn message t (.append, x.1, x.2)).alone (deskEngine ι) i
      ⟨tenantId, .contact contactId, now⟩ (n + 2) d = some (d₃, .ok y) ∧ Ingested d d₃ tenantId contactId message t y := by
    refine ingested_of_ready hset ⟨hset.solo i,rfl,⟨x.2,hs,hw,hlive,hon⟩,fun k' _ => ?_⟩ hunique _ fun _ => rfl
    rw [Table.visible_of_settled hset.tickets]
  have hreopen : ticketTransitionIsLegal x.2.state .opened = true →
      ∃ d₃ y, (((transitionIn [] x.1 .opened t).bind fun ticket => .done (.reopen, ticket)).bind (landOn message t)).alone
        (deskEngine ι) i ⟨tenantId, .contact contactId, now⟩ (n + 2) d = some (d₃, .ok y) ∧
        Ingested d d₃ tenantId contactId message t y := by
    intro hlegal
    rw [Script.bind_assoc]
    obtain ⟨d',r,hrun,hwrote,hmsg,hm,hstate⟩ := alone_transitionIn (n := n) (t := t)
      (f := fun ticket => landOn message t (.reopen, ticket)) (hset.solo i) hs hw (by decide) hlegal
    simp only [Script.done_bind, hrun]
    refine ingested_of_ready hset ⟨hwrote.solo (hset.solo i),hmsg,⟨r,hwrote.sees hs hm,?_,?_,?_⟩,fun k' hk' => ?_⟩ hunique _
      fun _ => rfl
    · rw [hm.isWhole, hw]
    · simp [Ticket.isLive, hstate]
    · rwa [onThread, hm.channel, hm.thread]
    · rw [hwrote.tickets, Table.visible_eq_view, Table.view_write _ _ _ ((hset.solo i).free _) hvis,
        ← Table.visible_eq_view, Table.visible_of_settled hset.tickets]
      simp [hk']
  rw [alone_reply hs]
  unfold targetFor targetForLive
  cases hstate : x.2.state with
  | opened => exact happend
  | onHold => exact happend
  | pending => exact hreopen (by rw [hstate]; rfl)
  | resolved => exact hreopen (by rw [hstate]; rfl)
  | closed => simp [Ticket.isLive, hstate] at hlive

structure NewOn (tenantId contactId : Uuid) (message : SlackUtterance) (r : Ticket) : Prop where
  tenant : r.tenantId = tenantId
  contact : r.contactId = contactId
  state : r.state = .opened
  thread : onThread message.channelId message.threadTs r = true
  whole : r.isWhole = true
  unassigned : r.assigneeId = none

variable {r : Ticket}

omit [DecidableEq ι] in
/-- The Ticket that is live on the thread keeps a new one out. -/
theorem conflicts_of_liveOn (h : NewOn tenantId contactId message r) {k n : Uuid} {L : Ticket}
    (hL : LiveOn d tenantId message k L) : conflicts n r k L = true := by
  obtain ⟨_,hlive,hten,hon⟩ := hL
  have hr := h.thread
  simp only [onThread, decide_eq_true_eq] at hon hr
  simp [conflicts, sharesThread, Ticket.isLive, h.state, h.tenant, hr.1, hr.2, hon.1, hon.2, hten]
  exact .inr (by simpa [Ticket.isLive] using hlive)

omit [DecidableEq ι] in
/-- Where none is live, nothing is in the way of a new one. -/
theorem free_of_noneLive (h : NewOn tenantId contactId message r) {n : Uuid}
    (hnone : ∀ k L, ¬ LiveOn d tenantId message k L)
    (hchain : ∀ k r', d.tickets.committed k = some r' → r'.chain k = r.chain n →
      onThread message.channelId message.threadTs r' = true) {k : Uuid} {r' : Ticket}
    (hr' : d.tickets.committed k = some r') : conflicts n r k r' = false := by
  refine Bool.eq_false_iff.mpr fun hc => ?_
  simp only [conflicts, sharesChain, sharesThread, Bool.or_eq_true, decide_eq_true_eq] at hc
  rcases hc with ⟨_,hlive,hten,hch⟩ | ⟨_,hlive,hten,_,hc,hth⟩
  · exact hnone k r' ⟨hr',hlive,hten.symm.trans h.tenant,hchain k r' hr' hch.symm⟩
  · refine hnone k r' ⟨hr',hlive,hten.symm.trans h.tenant,?_⟩
    have hr := h.thread
    rw [onThread, hc, hth] at hr
    exact hr

theorem ready_of_insert {audit : Table ι AuditEntry} (hset : Settled d) (h : NewOn tenantId contactId message r) :
    Ready d i ⟨tenantId, .contact contactId, now⟩ message d.tickets.size
      { d with tickets := d.tickets.insert i r, audit := audit } where
  solo k p hp := by
    have ho : (d.tickets.insert i r).own p.1 k = some p.2 := (Table.own_eq_some_iff _ _ _).mpr hp
    rcases Table.own_insert_cases _ _ _ _ ho with ⟨_,hi,_⟩ | ho
    · exact hi
    · have hpend := (Table.own_eq_some_iff _ _ _).mp ho
      rw [hset.tickets k] at hpend
      cases hpend
  messages := rfl
  target := by
    refine ⟨r,Desk.sees_some.mpr ⟨Table.visible_of_own _ _ _ (Table.own_insert_self _ _ _),?_⟩,h.whole,?_,h.thread⟩
    · simp [Ticket.visibleTo, h.tenant, h.contact, Actor.reaches]
    · simp [Ticket.isLive, h.state]
  others k' hk' := by
    show (d.tickets.insert i r).visible i k' = _
    rw [Table.visible_eq_view, Table.view_insert, if_neg hk', ← Table.visible_eq_view, Table.visible_of_settled hset.tickets]

/-- A transaction that opens a Ticket on the thread is ingested if none is live there, and fails else. -/
def DecidedByLive (d : Desk ι) (i : ι) (n : Nat) (tenantId contactId : Uuid) (now t : Int) (message : SlackUtterance)
    (p : Tx ContactReply) : Prop :=
  ((∀ k L, ¬ LiveOn d tenantId message k L) → ∃ d₃ y, p.alone (deskEngine ι) i ⟨tenantId, .contact contactId, now⟩ (n + 2) d =
    some (d₃, .ok y) ∧ Ingested d d₃ tenantId contactId message t y) ∧
  ∀ k L, LiveOn d tenantId message k L → ∃ d₃ e, p.alone (deskEngine ι) i ⟨tenantId, .contact contactId, now⟩ (n + 2) d =
    some (d₃, .error e)

theorem decided_of_created {input : CreateTicketInput} {g : Failure → Failure} (hset : Settled d)
    (h : NewOn tenantId contactId message r)
    (hadm : d.Admits i ⟨tenantId, .contact contactId, now⟩ (.fresh tenantId input.subject input.contactId input.source
      input.spawnedFromTicketId input.slackRoute t) r)
    (hchain : ∀ k r', d.tickets.committed k = some r' → r'.chain k = r.chain d.tickets.size →
      onThread message.channelId message.threadTs r' = true) :
    DecidedByLive d i n tenantId contactId now t message (((createIn tenantId input t).rethrow g).bind fun ticket =>
      landOn message t (.spawn, ticket)) := by
  refine ⟨fun hnone => ?_,fun k L hL => ?_⟩
  · obtain ⟨audit,hrun⟩ := alone_createIn (n := n + 1) (g := g) (f := fun ticket => landOn message t (.spawn, ticket))
      (hset.solo i) rfl hadm fun k r' hr' =>
        free_of_noneLive h hnone hchain (by rwa [Table.visible_of_settled hset.tickets] at hr')
    rw [hrun]
    exact ingested_of_ready hset (ready_of_insert hset h) (fun k L hL => absurd hL (hnone k L)) _ fun _ => rfl
  · have hvis : d.tickets.visible i k = some L := by
      rw [Table.visible_of_settled hset.tickets]
      exact hL.1
    exact ⟨_,_,alone_createIn_refused (hset.solo i) rfl hadm hvis (conflicts_of_liveOn h hL)⟩

/-- A thread that the sender opens. -/
theorem decided_openThread (hset : Settled d) (hb : b.Rooted) (hbd : b.tickets = d.tickets.committed)
    (hcontact : (d.contacts.committed contactId).any (·.tenantId = tenantId) = true) :
    DecidedByLive d i n tenantId contactId now t message (openThread ⟨tenantId, contactId⟩ message t) := by
  have hopen : openThread ⟨tenantId, contactId⟩ message t = ((createIn tenantId ⟨Text.wellFormed (subjectFrom message.text), contactId, .slack,
      none, some (message.channelId, message.threadTs)⟩ t).rethrow id).bind fun ticket => landOn message t (.spawn, ticket) := by
    rw [Script.rethrow_id]
    rfl
  rw [hopen]
  refine decided_of_created (r := .fresh tenantId (Text.wellFormed (subjectFrom message.text)) contactId .slack none
    (some (message.channelId, message.threadTs)) t) hset ⟨rfl,rfl,rfl,?_,?_,rfl⟩ ⟨rfl,rfl,?_,?_,?_,rfl⟩ fun k r' hr' hch => ?_
  · simp [onThread, Ticket.fresh]
  · simp [Ticket.isWhole, Ticket.fresh]
  · simp [Ticket.visibleTo, Ticket.fresh, Actor.reaches]
  · simp [Ticket.isWhole, Ticket.fresh]
  · rw [Desk.hasContact, Table.visible_of_settled hset.contacts]
    exact hcontact
  · -- the new Ticket is a chain of its own
    obtain ⟨_,o,ho,_⟩ := hb.origin k r' (by rw [hbd]; exact hr')
    rw [hch, hbd] at ho
    exact absurd (Table.lt_size_of_committed _ _ ho) (Nat.lt_irrefl _)

/-- A reply to a closed Ticket of the sender, when none that the sender sees is live. -/
theorem decided_reply_closed (hset : Settled d) (hb : b.Rooted) (hbd : b.tickets = d.tickets.committed)
    (hcontact : (d.contacts.committed contactId).any (·.tenantId = tenantId) = true)
    (hs : d.sees i ⟨tenantId, .contact contactId, now⟩ x.1 = some x.2) (hclosed : x.2.state = .closed)
    (hon : onThread message.channelId message.threadTs x.2 = true)
    (hall : ∀ k r, d.sees i ⟨tenantId, .contact contactId, now⟩ k = some r →
      onThread message.channelId message.threadTs r = true → r.state = .closed) :
    DecidedByLive d i n tenantId contactId now t message
      (Tickets.reply ⟨tenantId, contactId⟩ x.1 message.text .slack t) := by
  have hticket : ∀ {k r}, d.sees i ⟨tenantId, .contact contactId, now⟩ k = some r → b.tickets k = some r := by
    intro k r hk
    rw [hbd]
    exact ((sees_iff hset).mp hk).1
  have hx := hticket hs
  -- a live Ticket of the chain would be on the thread
  have hnone : ((d.rows i ⟨tenantId, .contact contactId, now⟩).filter fun p =>
      decide (inChainWith x.1 x.2 p.1 p.2 ∧ p.2.state ≠ .closed)).head? = none := by
    rw [List.head?_eq_none_iff, List.filter_eq_nil_iff]
    intro p hp hlive
    obtain ⟨hin,hlive⟩ := of_decide_eq_true hlive
    have hsp := Desk.mem_rows.mp hp
    obtain ⟨hch,hth⟩ := hb.route hx (hticket hsp) ((hb.inChainWith_iff hx (hticket hsp)).mp hin)
    exact hlive (hall p.1 p.2 hsp (by rwa [onThread, hch, hth]))
  obtain ⟨_,hten,hcon⟩ := (sees_iff hset).mp hs
  have hrun : (Tickets.reply ⟨tenantId, contactId⟩ x.1 message.text .slack t).alone (deskEngine ι) i
      ⟨tenantId, .contact contactId, now⟩ (n + 2) d = (((createIn tenantId ⟨x.2.subject, contactId, .slack, some x.1, none⟩
        t).rethrow rethrowChainConflict).bind fun ticket => landOn message t (.spawn, ticket)).alone (deskEngine ι) i
      ⟨tenantId, .contact contactId, now⟩ (n + 2) d := by
    rw [alone_reply hs]
    unfold targetFor
    rw [hclosed]
    have hselect : ((spawnOrJoinLive ⟨tenantId, contactId⟩ x.1 x.2 .slack t).bind (landOn message t)).alone (deskEngine ι) i
        ⟨tenantId, .contact contactId, now⟩ (n + 2) d = Script.alone (deskEngine ι) i ⟨tenantId, .contact contactId, now⟩ (n + 2)
        ((match ((d.rows i ⟨tenantId, .contact contactId, now⟩).filter fun p =>
            decide (inChainWith x.1 x.2 p.1 p.2 ∧ p.2.state ≠ .closed)).head? with
          | some live => targetForLive live.1 live.2 t
          | none => ((createIn tenantId ⟨x.2.subject, contactId, .slack, some x.1, none⟩ t).rethrow
              rethrowChainConflict).bind fun ticket => .done (.spawn, ticket) : Tx (ReplyOutcome × Uuid × Ticket)).bind
          (landOn message t)) d := rfl
    refine hselect.trans ?_
    rw [hnone]
    simp only [Script.bind_assoc, Script.done_bind]
  have hwhole : Ticket.isWhole { Ticket.fresh tenantId x.2.subject contactId .slack (some x.1) none t with
      rootTicketId := some (x.2.rootTicketId.getD x.1), slackChannelId := x.2.slackChannelId,
      slackThreadTs := x.2.slackThreadTs } = true := by
    have hroute := hon
    simp only [onThread, decide_eq_true_eq] at hroute
    simp [Ticket.isWhole, Ticket.fresh, hroute.1, hroute.2]
  unfold DecidedByLive
  rw [hrun]
  refine decided_of_created (r := { Ticket.fresh tenantId x.2.subject contactId .slack (some x.1) none t with
    rootTicketId := some (x.2.rootTicketId.getD x.1), slackChannelId := x.2.slackChannelId, slackThreadTs := x.2.slackThreadTs })
    hset ⟨rfl,rfl,rfl,hon,hwhole,rfl⟩ ⟨rfl,?_,?_,hwhole,?_,rfl⟩ fun k r' hr' hch => ?_
  · simp [enforceLinkageOnInsert, Ticket.fresh, hs, hten, Option.filter]
  · simp [Ticket.visibleTo, Ticket.fresh, Actor.reaches]
  · rw [Desk.hasContact, Table.visible_of_settled hset.contacts]
    exact hcontact
  · obtain ⟨hch',hth⟩ := hb.route hx (by rw [hbd]; exact hr') hch
    rwa [onThread, hch', hth]

end Third
variable {botUserId : String} {event : Option Event} {at' : Int}

def third (tenantId contactId : Uuid) (message : SlackUtterance) (at' : Int) : Option (Uuid × Ticket) → Tx ContactReply
  | some ticket => Tickets.reply ⟨tenantId, contactId⟩ ticket.1 message.text .slack at'
  | none => openThread ⟨tenantId, contactId⟩ message at'

/-- The first two transactions give the sender a Contact and look the thread up; Tickets and Messages
are left alone. -/
structure LookedUp (d : Desk ι) (i : ι) (tenantId contactId : Uuid) (message : SlackUtterance) (d₂ : Desk ι)
    (existing : Option (Uuid × Ticket)) : Prop where
  tickets : d₂.tickets = d.tickets
  messages : d₂.messages = d.messages
  settled : Settled d₂
  contact : (d₂.contacts.committed contactId).any (·.tenantId = tenantId) = true
  found : Found d₂ i ⟨tenantId, .contact contactId, d₂.clock⟩ message existing

theorem handle_eq_third (hset : Settled d) (hread : readSlackMessage event botUserId = some message) (i : ι) (n : Nat)
    (rank : Uuid → Nat) (tenantId : Uuid) (at' : Int) :
    ∃ d₂ existing, handle i (n + 2) rank tenantId botUserId event at' d =
        step i (n + 2) tenantId (.contact (senderContact d tenantId message.slackUserId))
          (third tenantId (senderContact d tenantId message.slackUserId) message at' existing) d₂
          (fun d r => some (d, .ok (some r))) ∧
      LookedUp d i tenantId (senderContact d tenantId message.slackUserId) message d₂ existing := by
  obtain ⟨d₁,hrun₁,ht₁,hm₁,hset₁,hc₁⟩ := alone_contactFor (i := i) hset (n + 1) tenantId message.slackUserId d.clock
  obtain ⟨existing,hrun₂,hfound⟩ := alone_ticketOnThread (i := i) (n + 1) rank
    ⟨tenantId, .contact (senderContact d tenantId message.slackUserId), d₁.clock⟩ d₁ message
  have htickets : (d₁.commit i).tickets = d₁.tickets := Table.commit_of_settled hset₁.tickets i
  have hmessages : (d₁.commit i).messages = d₁.messages := Table.commit_of_settled hset₁.messages i
  have hcontacts : (d₁.commit i).contacts = d₁.contacts := Table.commit_of_settled hset₁.contacts i
  have hsees : ∀ ctx k, (d₁.commit i).sees i ctx k = d₁.sees i ctx k := by
    intro ctx k
    rw [Desk.sees, htickets]
    rfl
  refine ⟨d₁.commit i,existing,?_,htickets.trans ht₁,hmessages.trans hm₁,⟨?_,?_,?_⟩,?_,?_⟩
  · simp only [handle, hread, step, hrun₁, hrun₂]
    cases existing with
    | none => rfl
    | some x => rfl
  · rw [htickets]
    exact hset₁.tickets
  · rw [hmessages]
    exact hset₁.messages
  · rw [hcontacts]
    exact hset₁.contacts
  · simp [hcontacts, hc₁]
  · cases existing with
    | none => exact fun k r hs => hfound k r ((hsees _ _).symm.trans hs)
    | some x =>
      obtain ⟨hs,hon,hall⟩ := hfound
      exact ⟨(hsees _ _).trans hs,hon,fun hc k r hk => hall hc k r ((hsees _ _).symm.trans hk)⟩

omit [DecidableEq ι] in
private theorem Ingested.of_messages {d₂ d₃ : Desk ι} {x : ContactReply} (hm : d₂.messages = d.messages)
    (h : Ingested d₂ d₃ tenantId contactId message at' x) : Ingested d d₃ tenantId contactId message at' x :=
  ⟨by rw [← hm]; exact h.messages,h.live,h.unique⟩

/-- The two cases, when the third transaction opens a Ticket: the sender sees none that is live. -/
private theorem third_cases {p : Tx ContactReply} (hset : Settled d)
    (h : DecidedByLive d i n tenantId contactId d.clock at' message p)
    (hunseen : ∀ k r, d.sees i ⟨tenantId, .contact contactId, d.clock⟩ k = some r →
      onThread message.channelId message.threadTs r = true → r.state = .closed) :
    ((∀ k r, LiveOn d tenantId message k r → r.contactId = contactId) ∧
      ∃ d₃ y, p.alone (deskEngine ι) i ⟨tenantId, .contact contactId, d.clock⟩ (n + 2) d = some (d₃, .ok y) ∧
        Ingested d d₃ tenantId contactId message at' y) ∨
    ¬ (∀ k r, LiveOn d tenantId message k r → r.contactId = contactId) ∧
      ∃ d₃ e, p.alone (deskEngine ι) i ⟨tenantId, .contact contactId, d.clock⟩ (n + 2) d = some (d₃, .error e) := by
  by_cases hlive : ∃ k L, LiveOn d tenantId message k L
  · obtain ⟨k,L,hL⟩ := hlive
    refine .inr ⟨fun hown => ?_,h.2 k L hL⟩
    obtain ⟨hcom,hl,hten,hon⟩ := id hL
    have hclosed := hunseen k L ((sees_iff hset).mpr ⟨hcom,hten,hown k L hL⟩) hon
    simp [Ticket.isLive, hclosed] at hl
  · have hnone : ∀ k L, ¬ LiveOn d tenantId message k L := fun k L hL => hlive ⟨k,L,hL⟩
    exact .inl ⟨fun k r hr => absurd hr (hnone k r),h.1 hnone⟩

/-- What the handler does with a message: it ingests it, or it fails, and which of the two depends on
whose Ticket is live on the thread. -/
theorem handle_cases {b : Register} (hset : Settled d) (hb : b.Rooted) (hone : b.OneLive)
    (hbd : b.tickets = d.tickets.committed) (hread : readSlackMessage event botUserId = some message) (i : ι) (n : Nat)
    (rank : Uuid → Nat) (tenantId : Uuid) (at' : Int) :
    (OwnThread d tenantId message ∧ ∃ d' x, handle i (n + 2) rank tenantId botUserId event at' d = some (d', .ok (some x)) ∧
      Ingested d d' tenantId (senderContact d tenantId message.slackUserId) message at' x) ∨
    ¬ OwnThread d tenantId message ∧ ∃ d' e, handle i (n + 2) rank tenantId botUserId event at' d = some (d', .error e) := by
  obtain ⟨d₂,existing,hhandle,hlook⟩ := handle_eq_third hset hread i n rank tenantId at'
  have hbd₂ : b.tickets = d₂.tickets.committed := by rw [hlook.tickets, hbd]
  have hown : OwnThread d tenantId message ↔
      ∀ k r, LiveOn d₂ tenantId message k r → r.contactId = senderContact d tenantId message.slackUserId := by
    simp only [OwnThread, LiveOn, hlook.tickets]
  have hthird : (∀ k r, LiveOn d₂ tenantId message k r → r.contactId = senderContact d tenantId message.slackUserId) ∧
      (∃ d₃ y, (third tenantId (senderContact d tenantId message.slackUserId) message at' existing).alone (deskEngine ι) i
        ⟨tenantId, .contact (senderContact d tenantId message.slackUserId), d₂.clock⟩ (n + 2) d₂ = some (d₃, .ok y) ∧
        Ingested d₂ d₃ tenantId (senderContact d tenantId message.slackUserId) message at' y) ∨
      ¬ (∀ k r, LiveOn d₂ tenantId message k r → r.contactId = senderContact d tenantId message.slackUserId) ∧
      ∃ d₃ e, (third tenantId (senderContact d tenantId message.slackUserId) message at' existing).alone (deskEngine ι) i
        ⟨tenantId, .contact (senderContact d tenantId message.slackUserId), d₂.clock⟩ (n + 2) d₂ = some (d₃, .error e) := by
    have hset₂ := hlook.settled
    have hfound := hlook.found
    cases existing with
    | none =>
      refine third_cases hset₂ (decided_openThread hset₂ hb hbd₂ hlook.contact) fun k r hs hon => ?_
      rw [hfound k r hs] at hon
      cases hon
    | some x =>
      obtain ⟨hs,hon,hall⟩ := hfound
      by_cases hclosed : x.2.state = .closed
      · exact third_cases hset₂ (decided_reply_closed hset₂ hb hbd₂ hlook.contact hs hclosed hon (hall hclosed)) (hall hclosed)
      · -- the thread is the sender's own, and the route of a live Ticket is unique
        have hlive : x.2.isLive = true := decide_eq_true hclosed
        obtain ⟨hx,hten,hcontact⟩ := (sees_iff hset₂).mp hs
        have hunique : ∀ k r, LiveOn d₂ tenantId message k r → k = x.1 ∧ r = x.2 := by
          rintro k r ⟨hk,hl,ht,hr⟩
          simp only [onThread, decide_eq_true_eq] at hr hon
          have hkx : k = x.1 := hone.route k x.1 r x.2 (by rw [hbd₂]; exact hk) (by rw [hbd₂]; exact hx) hl hlive
            (ht.trans hten.symm) (by simp [hr.2]) (hr.1.trans hon.1.symm) (hr.2.trans hon.2.symm)
          rw [hkx, hx] at hk
          exact ⟨hkx,(Option.some.inj hk).symm⟩
        refine .inl ⟨fun k r hr => ?_,ingested_of_live hset₂ hb hbd₂ hs hlive hon fun k r hr => (hunique k r hr).1⟩
        rw [(hunique k r hr).2, hcontact]
  rcases hthird with ⟨hall,d₃,y,hrun,hing⟩ | ⟨hnot,d₃,e,hrun⟩
  · refine .inl ⟨hown.mpr hall,d₃,y,?_,hing.of_messages hlook.messages⟩
    rw [hhandle, step, hrun]
  · refine .inr ⟨fun h => hnot (hown.mp h),d₃,e,?_⟩
    rw [hhandle, step, hrun]

/-- On every database that any writers can bring about, and with nobody beside it, the handler ingests
the message exactly when nobody but the sender has a live Ticket on its thread. -/
theorem ingested_iff_ownThread {ε α Req : Type} {srv : Service deskLanguage ε α TenantContext (Desk ι) Req}
    {ok : Server deskLanguage ε α ι TenantContext (Desk ι) Cursor Req → Move ι Req Tickets.Event → Prop}
    {s : Server deskLanguage ε α ι TenantContext (Desk ι) Cursor Req} {acts : List (Move ι Req Tickets.Event)}
    (hr : Run (Server.step (deskEngine ι) srv Desk.world) ok (Server.initial Desk.empty) acts s) (hset : Settled s.db)
    (hread : readSlackMessage event botUserId = some message) (i : ι) (n : Nat) (rank : Uuid → Nat) (tenantId : Uuid)
    (at' : Int) :
    (∃ d' x, handle i (n + 2) rank tenantId botUserId event at' s.db = some (d', .ok (some x)) ∧
      Ingested s.db d' tenantId (senderContact s.db tenantId message.slackUserId) message at' x) ↔
    OwnThread s.db tenantId message := by
  have hrooted := rooted_of_run hr fun _ => false
  have hone := (single_of_run hr fun _ => false).oneLive hrooted
  rcases handle_cases hset hrooted hone (by simp) hread i n rank tenantId at' with ⟨hown,hing⟩ | ⟨hnot,d',e,hfail⟩
  · exact ⟨fun _ => hown,fun _ => hing⟩
  · refine ⟨?_,fun hown => absurd hown hnot⟩
    rintro ⟨d₁,x,hok,_⟩
    rw [hfail] at hok
    cases hok

instance (d : Desk ι) : Decidable (Settled d) :=
  decidable_of_iff ((∀ k < d.tickets.size, (d.tickets.pending k).isNone) ∧ (∀ k < d.messages.size, (d.messages.pending k).isNone) ∧
      ∀ k < d.contacts.size, (d.contacts.pending k).isNone) <| by
    have hall : ∀ {R : Type} (t : Table ι R), (∀ k < t.size, (t.pending k).isNone) → ∀ k, t.pending k = none := by
      intro R t h k
      rcases Nat.lt_or_ge k t.size with hk | hk
      · exact Option.isNone_iff_eq_none.mp (h k hk)
      · exact t.pending_fresh k hk
    refine ⟨fun ⟨ht,hm,hc⟩ => ⟨hall _ ht,hall _ hm,hall _ hc⟩,fun h => ⟨?_,?_,?_⟩⟩
    · exact fun k _ => by rw [h.tickets]; rfl
    · exact fun k _ => by rw [h.messages]; rfl
    · exact fun k _ => by rw [h.contacts]; rfl

end Handler

private def posting (user text : String) : Event := fun key =>
  if key = "type" then some (.text "message")
  else if key = "user" then some (.text user)
  else if key = "channel" then some (.text "C1")
  else if key = "ts" then some (.text "1.2")
  else if key = "thread_ts" then some (.text "1.0")
  else if key = "text" then some (.text text)
  else none

private def opening : List (Move Unit (Request Work.KeepsContact) Tickets.Event) :=
  Move.begin () (.other ⟨1, .system, contactFor "U1" >>= fun _ => pure none⟩
    ((Script.only_query trivial).bind fun _ => trivial)) :: List.replicate 3 (Move.advance ()) ++
  Move.begin () (.openThread ⟨1, 0⟩ ⟨"C1", "1.0", "U1", "printer"⟩ 1) :: List.replicate 9 (Move.advance ())

private theorem opened_thread : ∃ s, Run (deskStep Unit) Always (Server.initial Desk.empty) opening s ∧ Settled s.db ∧
    s.db.tickets.size = 1 ∧ senderContact s.db 1 "U1" = 0 ∧ senderContact s.db 1 "U2" = 1 ∧
    ∃ r, LiveOn s.db 1 ⟨"C1", "1.0", "U2", "me too"⟩ 0 r ∧ r.contactId = 0 := by
  have hrun : (exec (deskStep Unit) Always (Server.initial Desk.empty) opening).any (fun s =>
      Settled s.db ∧ s.db.tickets.size = 1 ∧ senderContact s.db 1 "U1" = 0 ∧ senderContact s.db 1 "U2" = 1 ∧
      (s.db.tickets.committed 0).any fun r =>
        r.isLive = true ∧ r.tenantId = 1 ∧ onThread "C1" "1.0" r = true ∧ r.contactId = 0) = true := by
    decide +kernel
  obtain ⟨s,hs,hany⟩ := exec_any hrun
  obtain ⟨hset,hsize,hfirst,hsecond,hany⟩ := of_decide_eq_true hany
  obtain ⟨r,hr,hany⟩ := (Option.any_eq_true _ _).mp hany
  obtain ⟨hlive,hten,hon,hcontact⟩ := of_decide_eq_true hany
  exact ⟨s,hs,hset,hsize,hfirst,hsecond,r,⟨hr,hlive,hten,hon⟩,hcontact⟩

/-- `U1` goes on talking on the thread. -/
theorem ingested_of_opener : ∃ s : DeskServer Unit, (∃ r, LiveOn s.db 1 ⟨"C1", "1.0", "U1", "still broken"⟩ 0 r) ∧
    ∃ d' x, handle () 2 id 1 "B1" (some (posting "U1" "still broken")) 5 s.db = some (d', .ok (some x)) ∧
      Ingested s.db d' 1 0 ⟨"C1", "1.0", "U1", "still broken"⟩ 5 x := by
  obtain ⟨s,hs,hset,hsize,hfirst,_,r,hlive,hcontact⟩ := opened_thread
  have hread : readSlackMessage (some (posting "U1" "still broken")) "B1" = some ⟨"C1", "1.0", "U1", "still broken"⟩ := by
    decide +kernel
  refine ⟨s,⟨r,hlive⟩,?_⟩
  rw [← hfirst]
  refine (ingested_iff_ownThread hs hset hread () 0 id 1 5).mpr fun k r' hr' => ?_
  have hk : k < 1 := hsize ▸ Table.lt_size_of_committed _ _ hr'.1
  obtain rfl : k = 0 := Nat.lt_one_iff.mp hk
  cases hlive.1.symm.trans hr'.1
  rw [hcontact, hfirst]

/-- `U2` joins in on the same thread, and the message is not ingested. -/
theorem second_sender_refused : ∃ acts s, Run (deskStep Unit) Always (Server.initial Desk.empty) acts s ∧ Settled s.db ∧
    ∃ message, readSlackMessage (some (posting "U2" "me too")) "B1" = some message ∧
    ∀ n rank at', ∃ d' e, handle () (n + 2) rank 1 "B1" (some (posting "U2" "me too")) at' s.db = some (d', .error e) := by
  obtain ⟨s,hs,hset,_,_,hsecond,r,hlive,hcontact⟩ := opened_thread
  have hread : readSlackMessage (some (posting "U2" "me too")) "B1" = some ⟨"C1", "1.0", "U2", "me too"⟩ := by decide +kernel
  refine ⟨_,s,hs,hset,_,hread,fun n rank at' => ?_⟩
  have hrooted := rooted_of_run hs fun _ => false
  rcases handle_cases hset hrooted ((single_of_run hs fun _ => false).oneLive hrooted) (by simp) hread () n rank 1 at' with ⟨hown,_⟩ | ⟨_,hfail⟩
  · have hzero := hown 0 r hlive
    rw [hcontact, hsecond] at hzero
    cases hzero
  · exact hfail

end Nivara.Slack
