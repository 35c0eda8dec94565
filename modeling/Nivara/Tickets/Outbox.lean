import Nivara.Tickets.Conversation
import Nivara.Transactions.Triples

/-! Messages and their way out. One transaction writes a Message, its row of `outbound_delivery` and its
job, so that the three are committed together; and it is the same for every Message, since all of them are
written by `postIn`. -/
namespace Nivara.Tickets
open Transactions

def Sole (rows : Nat → Option Dispatch) (n : Uuid) : Option Dispatch → Prop
  | none => ∀ k row, rows k = some row → row.messageId ≠ n
  | some x => ∃ k, rows k = some x ∧ ∀ k' row, rows k' = some row → row.messageId = n → k' = k

def owed (n : Uuid) (m : Entry) (r : Ticket) : Option Dispatch :=
  if m.author.isContact then none
  else (Slack.routeFor r.slackChannelId r.slackThreadTs).map fun target => ⟨m.tenantId, n, target⟩

/-- These Messages are on these Tickets, and each has the delivery and the job that are owed for it; nothing else
is delivered. -/
structure Dispatched (messages : Uuid → Option Entry) (tickets : Uuid → Option Ticket)
    (deliveries jobs : Nat → Option Dispatch) : Prop where
  paid : ∀ n m, messages n = some m → ∃ r, tickets m.ticketId = some r ∧
    Sole deliveries n (owed n m r) ∧ Sole jobs n (owed n m r)
  addressed : ∀ k row, deliveries k = some row ∨ jobs k = some row → ∃ m, messages row.messageId = some m

section Rows
variable {rows rows' : Nat → Option Dispatch} {n : Uuid} {m : Entry} {r r' : Ticket} {x : Option Dispatch}

private theorem Sole.congr (h : Sole rows n x) (hx : ∀ row, x = some row → row.messageId = n)
    (hsame : ∀ k row, row.messageId = n → (rows' k = some row ↔ rows k = some row)) : Sole rows' n x := by
  cases x with
  | none => exact fun k row hk hn => h k row ((hsame k row hn).mp hk) hn
  | some row =>
    obtain ⟨k,hk,honly⟩ := h
    exact ⟨k,(hsame k row (hx row rfl)).mpr hk,fun k' row' hk' hn => honly k' row' ((hsame k' row' hn).mp hk') hn⟩

theorem messageId_of_owed {row : Dispatch} (h : owed n m r = some row) : row.messageId = n := by
  unfold owed at h
  split at h
  · cases h
  · obtain ⟨target,_,rfl⟩ := Option.map_eq_some_iff.mp h
    rfl

private theorem owed_evolves (h : Evolves r r') : owed n m r' = owed n m r := by
  rw [owed, owed, h.channel, h.thread]

variable {ι : Type} [DecidableEq ι] {t : Table ι Dispatch} {i : ι}

private theorem Sole.insert {row : Dispatch} (h : Sole (t.own i) n none) :
    Sole ((t.insert i row).own i) n (some row) := by
  refine ⟨t.size,Table.own_insert_self _ _ _,fun k row' hk hn' => ?_⟩
  rcases Table.own_insert_cases _ _ _ _ hk with ⟨hk,_,_⟩ | hk
  · exact hk
  · exact absurd hn' (h k row' hk)

/-- A commit of `i` makes its rows about `n` the rows about `n`, if there were none. -/
private theorem Sole.commit_own (h : Sole (t.own i) n x) (hx : ∀ row, x = some row → row.messageId = n)
    (hnone : ∀ k row, t.committed k = some row → row.messageId ≠ n) : Sole (t.commit i).committed n x := by
  refine h.congr hx fun k row hn => ⟨fun hk => ?_,Table.visible_of_own _ _ _⟩
  rcases Table.visible_cases _ _ _ hk with ho | ⟨_,hc⟩
  · exact ho
  · exact absurd hn (hnone k row hc)

private theorem Sole.commit_others (honly : t.InsertOnly) (h : Sole t.committed n x)
    (hx : ∀ row, x = some row → row.messageId = n) (hnone : ∀ k row, t.own i k = some row → row.messageId ≠ n) :
    Sole (t.commit i).committed n x := by
  refine h.congr hx fun k row hn => ⟨fun hk => ?_,fun hk => ?_⟩
  · rcases Table.visible_cases _ _ _ hk with ho | ⟨_,hc⟩
    · exact absurd hn (hnone k row ho)
    · exact hc
  · refine (Table.visible_of_no_own _ _ _ ?_).trans hk
    rw [Table.own_eq_none_iff]
    intro s hs
    cases (honly k _ hs).symm.trans hk

end Rows

variable {ι : Type} [DecidableEq ι] {d d' : Desk ι} {i j : ι} {ctx : TenantContext} {q : Stmt} {c c' : Cursor} {n : Uuid}

/-- What a turn of a statement of `i` does to the deliveries and the jobs. -/
inductive Ships (d : Desk ι) (i : ι) (ctx : TenantContext) : Stmt → Desk ι → Prop
  | nothing {q : Stmt} {d' : Desk ι} (deliveries : d'.deliveries = d.deliveries) (jobs : d'.jobs = d.jobs) : Ships d i ctx q d'
  | delivery {n : Uuid} {target : String} (staff : ctx.actor.isContact = false) : Ships d i ctx (.insertDelivery n target)
      { d with deliveries := d.deliveries.insert i ⟨ctx.tenantId, n, target⟩ }
  | job {n : Uuid} {target : String} (staff : ctx.actor.isContact = false) : Ships d i ctx (.enqueue n target)
      { d with jobs := d.jobs.insert i ⟨ctx.tenantId, n, target⟩ }

private theorem ships_of_stored {k : Uuid} {old new r : Ticket} (h : Stored d i ctx k old new d' r) :
    d'.deliveries = d.deliveries ∧ d'.jobs = d.jobs := by
  obtain ⟨entries,_,rfl⟩ := h.enforced
  exact ⟨rfl,rfl⟩

private theorem ships_of_more (h : (deskEngine ι).resume d i ctx q c = .more d' c') : Ships d i ctx q d' := by
  obtain ⟨plan,rfl⟩ := update_of_more h
  obtain ⟨k,set,rest,written,_,_,⟨rfl,_⟩ | ⟨_,_,_,_,_,hst,_⟩⟩ := Desk.updated_of_more h
  · exact .nothing rfl rfl
  · exact .nothing (ships_of_stored hst).1 (ships_of_stored hst).2

private theorem ships_of_answer {a : deskLanguage.Ans q} (h : (deskEngine ι).resume d i ctx q c = .answer d' a) :
    Ships d i ctx q d' := by
  cases q with
  | updateTickets plan =>
    obtain ⟨rfl,_⟩ := Desk.updated_of_answer h
    exact .nothing rfl rfl
  | selectTickets picks =>
    cases h
    exact .nothing rfl rfl
  | selectMessages picks =>
    cases h
    exact .nothing rfl rfl
  | insertTicket row =>
    obtain ⟨r,_,_,rfl⟩ := Desk.admitted_of_answer h
    exact .nothing rfl rfl
  | insertMessage k body t =>
    obtain ⟨_,_,_,_,_,hst,_,rfl⟩ := Desk.posted_of_answer h
    exact .nothing (ships_of_stored hst).1 (ships_of_stored hst).2
  | insertNote k body t =>
    obtain ⟨_,_,_,_,_,hst,rfl⟩ := Desk.noted_of_answer h
    exact .nothing (ships_of_stored hst).1 (ships_of_stored hst).2
  | record k entry t =>
    obtain ⟨_,rfl⟩ := Desk.recorded_of_answer h
    exact .nothing rfl rfl
  | insertContact =>
    simp only [deskEngine, Desk.resume] at h
    split at h
    · cases h
    · cases h
      exact .nothing rfl rfl
  | upsertContact slackUserId =>
    replace h : d.resumeUpsertContact (q := slackUserId) i ctx _ = .answer d' a := h
    unfold Desk.resumeUpsertContact at h
    simp only at h
    repeat' split at h
    all_goals cases h
    all_goals exact .nothing rfl rfl
  | insertDelivery n target =>
    replace h : d.resumeInsertDelivery (q := n) (t := target) i ctx _ = .answer d' a := h
    unfold Desk.resumeInsertDelivery at h
    split at h
    · cases h
    · rename_i hstaff
      repeat' split at h
      all_goals cases h
      exact .delivery (by simpa using hstaff)
  | enqueue n target =>
    simp only [deskEngine, Desk.resume] at h
    split at h
    · cases h
    · rename_i hstaff
      cases h
      exact .job (by simpa using hstaff)

structure Turned (d : Desk ι) (i : ι) (ctx : TenantContext) (q : Stmt) (c : Cursor) (d' : Desk ι) : Prop where
  effect : Effect d i ctx q c d'
  ships : Ships d i ctx q d'
  unchanged : d.Unchanged d'
  coherent : d.Coherent → d'.Coherent

theorem turned_of_more (h : (deskEngine ι).resume d i ctx q c = .more d' c') : Turned d i ctx q c d' where
  effect := effect_of_more h
  ships := ships_of_more h
  unchanged := unchanged_of_more h
  coherent hd := by
    have hc : Changes (deskEngine ι) Desk.world (fun _ _ _ _ _ => True) d d' := .more trivial h
    exact (registers_of_change hd hc).1.1

theorem turned_of_answer {a : deskLanguage.Ans q} (h : (deskEngine ι).resume d i ctx q c = .answer d' a) :
    Turned d i ctx q c d' where
  effect := effect_of_answer h
  ships := ships_of_answer h
  unchanged := unchanged_of_answer h
  coherent hd := by
    have hc : Changes (deskEngine ι) Desk.world (fun _ _ _ _ _ => True) d d' := .answer trivial h
    exact (registers_of_change hd hc).1.1

/-- The transactions still to end may commit what they have in the outbox whenever they like. -/
structure Orderly (d : Desk ι) : Prop where
  coherent : d.Coherent
  messages : d.messages.InsertOnly
  deliveries : d.deliveries.InsertOnly
  jobs : d.jobs.InsertOnly
  dispatched : Dispatched d.messages.committed d.tickets.committed d.deliveries.committed d.jobs.committed

def Balanced (i : ι) (d : Desk ι) : Prop :=
  Dispatched (d.messages.own i) (d.tickets.own i) (d.deliveries.own i) (d.jobs.own i)

structure SameOwn (i : ι) (d d' : Desk ι) : Prop where
  tickets : ∀ k, d'.tickets.own i k = d.tickets.own i k
  messages : ∀ k, d'.messages.own i k = d.messages.own i k
  deliveries : ∀ k, d'.deliveries.own i k = d.deliveries.own i k
  jobs : ∀ k, d'.jobs.own i k = d.jobs.own i k

section Database

private theorem insertOnly_of_turn (h : Orderly d) (ht : Turned d i ctx q c d') :
    d'.messages.InsertOnly ∧ d'.deliveries.InsertOnly ∧ d'.jobs.InsertOnly := by
  refine ⟨?_,?_⟩
  · cases ht.effect with
    | aside _ _ hm _ _ => exact hm ▸ h.messages
    | updated _ _ _ hst => exact (Desk.stored_frame hst).1 ▸ h.messages
    | inserted _ => exact h.messages
    | posted _ _ _ => exact h.messages.insert _ _
    | noted _ _ hst => exact (Desk.stored_frame hst).1 ▸ h.messages
    | recorded _ => exact h.messages
  · cases ht.ships with
    | nothing hd hj => exact ⟨hd ▸ h.deliveries,hj ▸ h.jobs⟩
    | delivery _ => exact ⟨h.deliveries.insert _ _,h.jobs⟩
    | job _ => exact ⟨h.deliveries,h.jobs.insert _ _⟩

theorem Orderly.turn (h : Orderly d) (ht : Turned d i ctx q c d') : Orderly d' := by
  obtain ⟨hm,hd,hj⟩ := insertOnly_of_turn h ht
  refine ⟨ht.coherent h.coherent,hm,hd,hj,?_⟩
  rw [ht.unchanged.messages, ht.unchanged.tickets, ht.unchanged.deliveries, ht.unchanged.jobs]
  exact h.dispatched

theorem Orderly.rollback (h : Orderly d) (i : ι) : Orderly (d.rollback i) :=
  ⟨Table.Follows.rollback h.coherent i,h.messages.rollback i,h.deliveries.rollback i,h.jobs.rollback i,h.dispatched⟩

theorem Orderly.world {w : Event} (h : Orderly d) (hw : d.world w = some d') : Orderly d' := by
  obtain ⟨clock,users,rfl⟩ := Desk.of_world hw
  exact ⟨h.coherent,h.messages,h.deliveries,h.jobs,h.dispatched⟩

theorem orderly_empty : Orderly (Desk.empty : Desk ι) :=
  ⟨coherent_empty,fun _ _ h => (by cases h),fun _ _ h => (by cases h),fun _ _ h => (by cases h),
    fun _ _ h => (by cases h),fun _ _ h => (by rcases h with h | h <;> cases h)⟩

private theorem Orderly.not_committed {m : Entry} (h : Orderly d) (hm : d.messages.own i n = some m) :
    d.messages.committed n = none := h.messages n _ ((Table.own_eq_some_iff _ _ _).mp hm)

/-- The Message goes out with its delivery and its job. -/
theorem Orderly.commit (h : Orderly d) (hb : Balanced i d) : Orderly (d.commit i) := by
  refine ⟨Table.Follows.commit h.coherent i,h.messages.commit i,h.deliveries.commit i,h.jobs.commit i,fun n m hm => ?_,
    fun k row hrow => ?_⟩
  · rcases Table.visible_cases _ _ _ hm with hown | ⟨hown,hcom⟩
    · -- the Message is one of `i`: nothing committed is about it
      obtain ⟨r,hr,hdelivery,hjob⟩ := hb.paid n m hown
      have hnone : ∀ k row, d.deliveries.committed k = some row ∨ d.jobs.committed k = some row → row.messageId ≠ n := by
        rintro k row hrow rfl
        obtain ⟨m',hm'⟩ := h.dispatched.addressed k row hrow
        cases (h.not_committed hown).symm.trans hm'
      refine ⟨r,Table.visible_of_own _ _ _ hr,hdelivery.commit_own (fun _ => messageId_of_owed) fun k row hk => hnone k row (.inl hk),
        hjob.commit_own (fun _ => messageId_of_owed) fun k row hk => hnone k row (.inr hk)⟩
    · -- it has been committed before, and nothing of `i` is about it
      obtain ⟨r,hr,hdelivery,hjob⟩ := h.dispatched.paid n m hcom
      have hnone : ∀ k row, d.deliveries.own i k = some row ∨ d.jobs.own i k = some row → row.messageId ≠ n := by
        rintro k row hrow rfl
        obtain ⟨m',hm'⟩ := hb.addressed k row hrow
        cases hown.symm.trans hm'
      obtain ⟨r',hr'⟩ : ∃ r', d.tickets.visible i m.ticketId = some r' := by
        cases ho : d.tickets.own i m.ticketId with
        | none => exact ⟨r,(Table.visible_of_no_own _ _ _ ho).trans hr⟩
        | some r' => exact ⟨r',Table.visible_of_own _ _ _ ho⟩
      refine ⟨r',hr',?_⟩
      rw [owed_evolves (h.coherent.visible Evolves.refl hr hr')]
      exact ⟨hdelivery.commit_others h.deliveries (fun _ => messageId_of_owed) fun k row hk => hnone k row (.inl hk),
        hjob.commit_others h.jobs (fun _ => messageId_of_owed) fun k row hk => hnone k row (.inr hk)⟩
  · have hsent : (d.deliveries.own i k = some row ∨ d.jobs.own i k = some row) ∨
        d.deliveries.committed k = some row ∨ d.jobs.committed k = some row := by
      rcases hrow with hrow | hrow
      · exact (Table.visible_cases _ _ _ hrow).elim (fun ho => .inl (.inl ho)) fun hc => .inr (.inl hc.2)
      · exact (Table.visible_cases _ _ _ hrow).elim (fun ho => .inl (.inr ho)) fun hc => .inr (.inr hc.2)
    rcases hsent with hown | hcom
    · obtain ⟨m,hm⟩ := hb.addressed k row hown
      exact ⟨m,Table.visible_of_own _ _ _ hm⟩
    · obtain ⟨m,hm⟩ := h.dispatched.addressed k row hcom
      refine ⟨m,(Table.visible_of_no_own _ _ _ ?_).trans hm⟩
      refine Option.eq_none_iff_forall_ne_some.mpr fun m' hm' => ?_
      cases (h.not_committed hm').symm.trans hm

private theorem sameOwn_of_turn (ht : Turned d i ctx q c d') (hj : j ≠ i) : SameOwn j d d' := by
  obtain ⟨htickets,hmessages⟩ := own_of_effect ht.effect hj
  refine ⟨htickets,hmessages,?_,?_⟩
  · cases ht.ships with
    | nothing hd _ => exact fun k => by rw [hd]
    | delivery _ => exact fun k => Table.own_insert_other _ _ _ _ hj
    | job _ => exact fun _ => rfl
  · cases ht.ships with
    | nothing _ hjobs => exact fun k => by rw [hjobs]
    | delivery _ => exact fun _ => rfl
    | job _ => exact fun k => Table.own_insert_other _ _ _ _ hj

end Database

structure Silent (i : ι) (d : Desk ι) : Prop where
  messages : ∀ n, d.messages.own i n = none
  deliveries : ∀ k, d.deliveries.own i k = none
  jobs : ∀ k, d.jobs.own i k = none

def Untouched (i : ι) (d : Desk ι) : Prop := (∀ k, d.tickets.own i k = none) ∧ Silent i d

def outboxRegime (ι α : Type) [DecidableEq ι] {Req : Type} (ends : Req → ι → Desk ι → Prop) :
    Regime (deskEngine ι) α Req Event Desk.world where
  terms := .any
  inv := Orderly
  rely := SameOwn
  idle := Untouched
  post i req _ _ d := Balanced i d ∧ ends req i d
  inv_rollback _ i h := h.rollback i
  inv_world _ _ _ h hw := h.world hw
  idle_commit _ _ := ⟨fun _ => Table.own_commit_self ..,fun _ => Table.own_commit_self ..,fun _ => Table.own_commit_self ..,
    fun _ => Table.own_commit_self ..⟩
  idle_rollback _ _ := ⟨fun _ => Table.own_rollback_self ..,fun _ => Table.own_rollback_self ..,
    fun _ => Table.own_rollback_self ..,fun _ => Table.own_rollback_self ..⟩
  idle_stable _ _ _ hs h := ⟨fun k => (hs.tickets k).trans (h.1 k),fun k => (hs.messages k).trans (h.2.messages k),
    fun k => (hs.deliveries k).trans (h.2.deliveries k),fun k => (hs.jobs k).trans (h.2.jobs k)⟩
  rely_refl _ _ := ⟨fun _ => rfl,fun _ => rfl,fun _ => rfl,fun _ => rfl⟩
  rely_commit _ _ _ _ _ _ hj _ _ _ := ⟨fun _ => Table.own_commit_other _ _ _ _ hj,fun _ => Table.own_commit_other _ _ _ _ hj,
    fun _ => Table.own_commit_other _ _ _ _ hj,fun _ => Table.own_commit_other _ _ _ _ hj⟩
  rely_rollback _ _ _ hj _ := ⟨fun _ => Table.own_rollback_other _ _ _ _ hj,fun _ => Table.own_rollback_other _ _ _ _ hj,
    fun _ => Table.own_rollback_other _ _ _ _ hj,fun _ => Table.own_rollback_other _ _ _ _ hj⟩
  rely_more _ _ _ _ _ _ _ _ hj _ ht := sameOwn_of_turn (turned_of_more ht) hj
  rely_answer _ _ _ _ _ _ _ _ hj _ ht := sameOwn_of_turn (turned_of_answer ht) hj
  rely_world _ _ _ _ _ hw := by
    obtain ⟨clock,users,rfl⟩ := Desk.of_world hw
    exact ⟨fun _ => rfl,fun _ => rfl,fun _ => rfl,fun _ => rfl⟩

def Stmt.Quiet : Stmt → Prop
  | .insertMessage _ _ _ => False
  | .insertDelivery _ _ => False
  | .enqueue _ _ => False
  | _ => True

structure Spoken (i : ι) (d : Desk ι) : Prop where
  spoken : ∀ n m, d.messages.own i n = some m → m.author.isContact = true ∧ ∃ r, d.tickets.own i m.ticketId = some r
  deliveries : ∀ k, d.deliveries.own i k = none
  jobs : ∀ k, d.jobs.own i k = none

/-- `i` has written the Message `n`, on its Ticket `r`, and has these rows about it. -/
structure Sending (i : ι) (n : Uuid) (m : Entry) (r : Ticket) (delivery job : Option Dispatch) (d : Desk ι) : Prop where
  message : d.messages.own i n = some m
  only : ∀ n' m', d.messages.own i n' = some m' → n' = n
  ticket : d.tickets.own i m.ticketId = some r
  addressed : ∀ k row, d.deliveries.own i k = some row ∨ d.jobs.own i k = some row → row.messageId = n
  deliveries : Sole (d.deliveries.own i) n delivery
  jobs : Sole (d.jobs.own i) n job

section Scripts
variable {m : Entry} {r : Ticket} {delivery job : Option Dispatch}

theorem Silent.spoken (h : Silent i d) : Spoken i d :=
  ⟨fun n _ hm => (by cases (h.messages n).symm.trans hm),h.deliveries,h.jobs⟩

/-- Nothing is owed to a Contact for its own words. -/
theorem Spoken.balanced (h : Spoken i d) : Balanced i d := by
  refine ⟨fun n m hm => ?_,fun k row hrow => ?_⟩
  · obtain ⟨hcontact,r,hr⟩ := h.spoken n m hm
    have howed : owed n m r = none := if_pos hcontact
    refine ⟨r,hr,?_⟩
    rw [howed]
    exact ⟨fun k row hk => (by cases (h.deliveries k).symm.trans hk),fun k row hk => (by cases (h.jobs k).symm.trans hk)⟩
  · rcases hrow with hk | hk
    · cases (h.deliveries k).symm.trans hk
    · cases (h.jobs k).symm.trans hk

theorem Sending.balanced (h : Sending i n m r (owed n m r) (owed n m r) d) : Balanced i d := by
  refine ⟨fun n' m' hm' => ?_,fun k row hrow => ?_⟩
  · obtain rfl := h.only n' m' hm'
    cases h.message.symm.trans hm'
    exact ⟨r,h.ticket,h.deliveries,h.jobs⟩
  · rw [h.addressed k row hrow]
    exact ⟨m,h.message⟩

/-- A Message that `i` has after a turn and had not before is what the turn has inserted. -/
private theorem posts_of_effect (he : Effect d i ctx q c d') {m : Entry} (hm : d'.messages.own i n = some m) :
    d.messages.own i n = some m ∨ (∃ k body t, q = .insertMessage k body t) ∧ m.author = ctx.actor ∧
      ∃ r, d'.tickets.own i m.ticketId = some r := by
  cases he with
  | aside _ _ hsame _ _ => exact .inl (hsame ▸ hm)
  | updated _ _ _ hst => exact .inl ((Desk.stored_frame hst).1 ▸ hm)
  | inserted _ => exact .inl hm
  | @posted k body t c old r d₁ hf hs hst =>
    rcases Table.own_insert_cases _ _ _ _ hm with ⟨_,_,rfl⟩ | hm
    · obtain ⟨entries,_,rfl⟩ := hst.enforced
      exact .inr ⟨⟨k,body,t,rfl⟩,rfl,r,Table.own_write_picked _ _ _ (by simp) (Desk.sees_some.mp hs).1 rfl⟩
    · exact .inl hm
  | noted _ _ hst =>
    refine .inl ?_
    simpa only [(Desk.stored_frame hst).1] using hm
  | recorded _ => exact .inl hm

/-- A Ticket that `i` has written is one it has written after a turn as well. -/
private theorem holds_of_effect {k : Uuid} (he : Effect d i ctx q c d') (hr : d.tickets.own i k = some r) :
    ∃ r', d'.tickets.own i k = some r' := by
  have hstored : ∀ {k₀ old new s d₁}, Stored d i ctx k₀ old new d₁ s → ∃ r', d₁.tickets.own i k = some r' := by
    intro k₀ old new s d₁ hst
    obtain ⟨_,_,rfl⟩ := hst.enforced
    exact Table.own_write_some hr
  cases he with
  | aside _ ht _ _ _ => exact ⟨r,ht ▸ hr⟩
  | updated _ _ _ hst => exact hstored hst
  | inserted _ => exact ⟨r,Table.own_insert_of_own _ _ _ _ hr⟩
  | posted _ _ hst => exact (hstored hst :)
  | noted _ _ hst => exact (hstored hst :)
  | recorded _ => exact ⟨r,hr⟩

private theorem Spoken.turn (h : Spoken i d) (hctx : ctx.actor.isContact = true) (ht : Turned d i ctx q c d') : Spoken i d' := by
  have hships : d'.deliveries = d.deliveries ∧ d'.jobs = d.jobs := by
    cases ht.ships with
    | nothing hd hj => exact ⟨hd,hj⟩
    | delivery hstaff => exact absurd hctx (by simp [hstaff])
    | job hstaff => exact absurd hctx (by simp [hstaff])
  refine ⟨fun n m hm => ?_,fun k => by rw [hships.1]; exact h.deliveries k,fun k => by rw [hships.2]; exact h.jobs k⟩
  rcases posts_of_effect ht.effect hm with hold | ⟨_,hauthor,hticket⟩
  · obtain ⟨hcontact,r,hr⟩ := h.spoken n m hold
    exact ⟨hcontact,holds_of_effect ht.effect hr⟩
  · exact ⟨hauthor ▸ hctx,hticket⟩

private theorem Silent.turn (h : Silent i d) (hq : q.Quiet) (ht : Turned d i ctx q c d') : Silent i d' := by
  have hships : d'.deliveries = d.deliveries ∧ d'.jobs = d.jobs := by
    cases ht.ships with
    | nothing hd hj => exact ⟨hd,hj⟩
    | delivery _ => exact hq.elim
    | job _ => exact hq.elim
  refine ⟨fun n => ?_,fun k => by rw [hships.1]; exact h.deliveries k,fun k => by rw [hships.2]; exact h.jobs k⟩
  refine Option.eq_none_iff_forall_ne_some.mpr fun m hm => ?_
  rcases posts_of_effect ht.effect hm with hold | ⟨⟨k,body,t,rfl⟩,_,_⟩
  · cases (h.messages n).symm.trans hold
  · exact hq.elim

variable {α Req : Type} {ends : Req → ι → Desk ι → Prop} {req : Req}

private theorem stable_unsent : (outboxRegime ι α ends).Stable i (Silent i) := fun _ _ _ _ hs h =>
  ⟨fun k => (hs.messages k).trans (h.messages k),fun k => (hs.deliveries k).trans (h.deliveries k),
    fun k => (hs.jobs k).trans (h.jobs k)⟩

private theorem stable_spoken : (outboxRegime ι α ends).Stable i (Spoken i) := by
  refine fun d d' _ _ hs h => ⟨fun n m hm => ?_,fun k => (hs.deliveries k).trans (h.deliveries k),
    fun k => (hs.jobs k).trans (h.jobs k)⟩
  obtain ⟨hcontact,r,hr⟩ := h.spoken n m ((hs.messages n).symm.trans hm)
  exact ⟨hcontact,r,(hs.tickets _).trans hr⟩

private theorem Sole.same {rows rows' : Nat → Option Dispatch} {x : Option Dispatch} (h : Sole rows n x)
    (hsame : ∀ k, rows' k = rows k) : Sole rows' n x := by
  rwa [funext hsame]

private theorem stable_sending : (outboxRegime ι α ends).Stable i (Sending i n m r delivery job) := by
  refine fun d d' _ _ hs h => ⟨(hs.messages n).trans h.message,fun n' m' hm' => h.only n' m' ((hs.messages n').symm.trans hm'),
    (hs.tickets _).trans h.ticket,fun k row hk => h.addressed k row ?_,h.deliveries.same hs.deliveries,h.jobs.same hs.jobs⟩
  exact hk.imp (hs.deliveries k).symm.trans (hs.jobs k).symm.trans

/-- A transaction in the name of a Contact, whatever it does. -/
theorem safe_spoken (hctx : ctx.actor.isContact = true) (hends : ∀ d, Spoken i d → ends req i d) (p : Tx α) :
    (outboxRegime ι α ends).Safe i req ctx p (Spoken i) :=
  Regime.safe_of_only stable_spoken
    (fun _ _ _ _ _ _ _ hd h ht => ⟨hd.turn (turned_of_more ht),h.turn hctx (turned_of_more ht)⟩)
    (fun _ _ _ _ _ _ _ hd h ht => ⟨hd.turn (turned_of_answer ht),h.turn hctx (turned_of_answer ht)⟩)
    (fun _ d hd h _ => ⟨hd.commit h.balanced,h.balanced,hends d h⟩) (Script.only_any p)

/-- A transaction that does not write to the outbox. -/
theorem safe_silent (hends : ∀ d, Silent i d → ends req i d) {p : Tx α} (hp : p.Only Stmt.Quiet) :
    (outboxRegime ι α ends).Safe i req ctx p (Silent i) :=
  Regime.safe_of_only stable_unsent
    (fun _ _ _ _ _ hq _ hd h ht => ⟨hd.turn (turned_of_more ht),h.turn hq (turned_of_more ht)⟩)
    (fun _ _ _ _ _ hq _ hd h ht => ⟨hd.turn (turned_of_answer ht),h.turn hq (turned_of_answer ht)⟩)
    (fun _ d hd h _ => ⟨hd.commit h.spoken.balanced,h.spoken.balanced,hends d h⟩) hp

/-- A turn of a statement that answers at once leaves the database orderly. -/
private theorem orderly_of_answer {a : deskLanguage.Ans q} (hd : Orderly d)
    (h : (deskEngine ι).resume d i ctx q c = .answer d' a) : Orderly d' := hd.turn (turned_of_answer h)

private theorem sending_insertMessage {k : Uuid} {body : String} {t : Int} :
    (outboxRegime ι α ends).Leads i req ctx (Tx.run (.insertMessage k body t) rethrowMissingTicket) (Silent i)
      fun a d => (a.2.author = ctx.actor ∧ a.2.tenantId = ctx.tenantId) ∧ ∃ r, r.visibleTo ctx = true ∧
        Sending i a.1 a.2 r none none d := by
  refine Regime.leads_guarded (A := fun _ => Silent i) (fun _ => stable_unsent)
    (fun a => Regime.stable_and (Regime.stable_const _) (Regime.stable_exists fun r =>
      Regime.stable_and (Regime.stable_const _) stable_sending)) (fun _ _ h => h) ?_ ?_
  · intro d c d' c' _ _ _ ht
    obtain ⟨plan,hq⟩ := update_of_more ht
    cases hq
  · intro d c d' a hd h _ ht
    refine ⟨orderly_of_answer hd ht,?_⟩
    obtain ⟨old,r,d₁,_,hs,hst,rfl,rfl⟩ := Desk.posted_of_answer ht
    obtain ⟨hdeliveries,hjobs⟩ := ships_of_stored hst
    have hvisible := hst.visible
    obtain ⟨entries,_,rfl⟩ := hst.enforced
    refine ⟨⟨rfl,rfl⟩,r,hvisible,Table.own_insert_self _ _ _,fun n' m' hm' => ?_,?_,fun k row hrow => ?_,fun k row hk => ?_,
      fun k row hk => ?_⟩
    · rcases Table.own_insert_cases _ _ _ _ hm' with ⟨hn,_,_⟩ | hm'
      · exact hn
      · cases (h.messages n').symm.trans hm'
    · exact Table.own_write_picked _ _ _ (by simp) (Desk.sees_some.mp hs).1 rfl
    · rcases hrow with hk | hk
      · cases (h.deliveries k).symm.trans hk
      · cases (h.jobs k).symm.trans hk
    · cases (h.deliveries k).symm.trans hk
    · cases (h.jobs k).symm.trans hk

private theorem Sending.deliver {x : Dispatch} (h : Sending i n m r none job d) (hx : x.messageId = n) :
    Sending i n m r (some x) job { d with deliveries := d.deliveries.insert i x } := by
  refine ⟨h.message,h.only,h.ticket,fun k row hrow => ?_,h.deliveries.insert,h.jobs⟩
  rcases hrow with hk | hk
  · rcases Table.own_insert_cases _ _ _ _ hk with ⟨_,_,rfl⟩ | hk
    · exact hx
    · exact h.addressed k row (.inl hk)
  · exact h.addressed k row (.inr hk)

private theorem Sending.schedule {x : Dispatch} (h : Sending i n m r delivery none d) (hx : x.messageId = n) :
    Sending i n m r delivery (some x) { d with jobs := d.jobs.insert i x } := by
  refine ⟨h.message,h.only,h.ticket,fun k row hrow => ?_,h.deliveries,h.jobs.insert⟩
  rcases hrow with hk | hk
  · exact h.addressed k row (.inl hk)
  · rcases Table.own_insert_cases _ _ _ _ hk with ⟨_,_,rfl⟩ | hk
    · exact hx
    · exact h.addressed k row (.inr hk)

private theorem sending_insertDelivery {target : String} {next : Except SqlState Unit → Tx Unit} {Q : Unit → Desk ι → Prop}
    (hnext : (outboxRegime ι α ends).Leads i req ctx (next (.ok ())) (Sending i n m r (some ⟨ctx.tenantId, n, target⟩) none) Q) :
    (outboxRegime ι α ends).Leads i req ctx (.exec (.insertDelivery n target) next) (Sending i n m r none none) Q := by
  refine Regime.leads_exec (A := fun _ => Sending i n m r none none) (fun _ => stable_sending) (fun _ => stable_sending)
    (fun _ _ h => h) ?_ ?_ fun _ => hnext
  · intro d c d' c' _ _ _ ht
    obtain ⟨plan,hq⟩ := update_of_more ht
    cases hq
  · intro d c d' a hd h _ ht
    refine ⟨orderly_of_answer hd ht,?_⟩
    replace ht : d.resumeInsertDelivery (q := n) (t := target) i ctx _ = .answer d' a := ht
    unfold Desk.resumeInsertDelivery at ht
    repeat' split at ht
    all_goals cases ht
    exact h.deliver rfl

private theorem sending_enqueue {target : String} {thrown : SqlState → Failure} : (outboxRegime ι α ends).Leads i req ctx
    (Tx.run (.enqueue n target) thrown) (Sending i n m r delivery none)
      fun _ => Sending i n m r delivery (some ⟨ctx.tenantId, n, target⟩) := by
  refine Regime.leads_guarded (A := fun _ => Sending i n m r delivery none) (fun _ => stable_sending) (fun _ => stable_sending)
    (fun _ _ h => h) ?_ ?_
  · intro d c d' c' _ _ _ ht
    obtain ⟨plan,hq⟩ := update_of_more ht
    cases hq
  · intro d c d' a hd h _ ht
    refine ⟨orderly_of_answer hd ht,?_⟩
    simp only [deskEngine, Desk.resume] at ht
    split at ht
    · cases ht
    · cases ht
      exact h.schedule rfl

private theorem sending_dispatchIn (hstaff : m.author.isContact = false) (htenant : m.tenantId = ctx.tenantId)
    (hvisible : r.visibleTo ctx = true) : (outboxRegime ι α ends).Leads i req ctx (dispatchIn n m)
      (Sending i n m r none none) fun _ => Sending i n m r (owed n m r) (owed n m r) := by
  have howed : owed n m r = (Slack.routeFor r.slackChannelId r.slackThreadTs).map fun target => ⟨ctx.tenantId, n, target⟩ := by
    rw [owed, if_neg (by simp [hstaff]), htenant]
  simp only [dispatchIn, hstaff, Bool.false_eq_true, if_false]
  refine Regime.leads_bind (Q := fun row d => row = some r ∧ Sending i n m r none none d) ?_ fun row => Regime.leads_pure ?_
  · refine leads_findUnique stable_sending (fun _ => Regime.stable_and (Regime.stable_const _) stable_sending) fun d _ h => ⟨?_,h⟩
    exact Desk.sees_some.mpr ⟨Table.visible_of_own _ _ _ h.ticket,hvisible⟩
  · rintro rfl
    rw [howed, Option.bind_some]
    cases Slack.routeFor r.slackChannelId r.slackThreadTs with
    | none => exact Regime.leads_done fun _ _ h => h
    | some target => exact sending_insertDelivery sending_enqueue

/-- `postIn` for anyone but a Contact. -/
theorem balanced_postIn {k : Uuid} {body : String} {t : Int} (hctx : ctx.actor.isContact = false) :
    (outboxRegime ι α ends).Leads i req ctx (postIn k body t) (Silent i) fun _ => Balanced i := by
  refine Regime.leads_bind (Q := fun _ => Silent i) ?_ fun _ => Regime.leads_bind sending_insertMessage fun a =>
    Regime.leads_pure fun ⟨hauthor,htenant⟩ => ?_
  · refine Regime.leads_bind (leads_findUnique stable_unsent (fun _ => stable_unsent) fun _ _ h => h) fun row => ?_
    cases row with
    | none => exact Regime.leads_fail
    | some r => exact Regime.leads_done fun _ _ h => h
  · refine Regime.leads_exists fun r => Regime.leads_pure fun hvisible => ?_
    exact Regime.leads_bind (sending_dispatchIn (hauthor ▸ hctx) htenant hvisible) fun _ =>
      Regime.leads_done fun _ _ h => h.balanced

end Scripts

/-- Replies on Ticket `k` go to `target`: on its own route, or on that of the Ticket it was spawned from. -/
inductive RoutedTo (tickets : Uuid → Option Ticket) : Uuid → String → Prop
  | own {k : Uuid} {r : Ticket} {target : String} (found : tickets k = some r) (origin : r.spawnedFromTicketId = none)
      (route : Slack.routeFor r.slackChannelId r.slackThreadTs = some target) : RoutedTo tickets k target
  | inherited {k p : Uuid} {r : Ticket} {target : String} (found : tickets k = some r)
      (spawned : r.spawnedFromTicketId = some p) (parent : RoutedTo tickets p target) : RoutedTo tickets k target

/-- The columns of a Ticket say where its replies go. -/
theorem Register.Rooted.routedTo_iff {b : Register} (h : b.Rooted) {k : Uuid} {r : Ticket} (hr : b.tickets k = some r)
    {target : String} : RoutedTo b.tickets k target ↔ Slack.routeFor r.slackChannelId r.slackThreadTs = some target := by
  constructor
  · intro hto
    induction hto generalizing r with
    | own hfound _ hroute =>
      cases hfound.symm.trans hr
      exact hroute
    | @inherited k p r' target hfound hsp _ ih =>
      cases hfound.symm.trans hr
      have hl := (h k r' hfound).1
      unfold Register.Linked at hl
      simp only [hsp] at hl
      obtain ⟨parent,hp,_,_,hch,hth⟩ := hl
      rw [hch, hth]
      exact ih hp
  · intro hroute
    -- by induction on the identifier: a parent has a smaller one
    induction k using Nat.strongRecOn generalizing r with
    | ind k ih =>
      obtain ⟨hl,hlt⟩ := h k r hr
      unfold Register.Linked at hl
      cases hsp : r.spawnedFromTicketId with
      | none => exact .own hr hsp hroute
      | some p =>
        simp only [hsp] at hl
        obtain ⟨parent,hp,_,_,hch,hth⟩ := hl
        exact .inherited hr hsp (ih p (hlt p hsp) hp (by rw [← hch, ← hth]; exact hroute))

/-- Every reply that should leave is scheduled, once, and nothing else is: `n` is the identifier of a Message. -/
structure Desk.Scheduled (d : Desk ι) : Prop where
  leaves : ∀ n m target, d.messages.committed n = some m → m.author.isContact = false →
    RoutedTo d.tickets.committed m.ticketId target →
    Sole d.deliveries.committed n (some ⟨m.tenantId, n, target⟩) ∧ Sole d.jobs.committed n (some ⟨m.tenantId, n, target⟩)
  stays : ∀ n m, d.messages.committed n = some m →
    (m.author.isContact = true ∨ ∀ target, ¬ RoutedTo d.tickets.committed m.ticketId target) →
    Sole d.deliveries.committed n none ∧ Sole d.jobs.committed n none
  addressed : ∀ k row, d.deliveries.committed k = some row ∨ d.jobs.committed k = some row →
    ∃ m, d.messages.committed row.messageId = some m

theorem Orderly.scheduled (h : Orderly d) (hrooted : (d.register fun _ => false).Rooted) : d.Scheduled := by
  have hroute : ∀ {k r target}, d.tickets.committed k = some r →
      (RoutedTo d.tickets.committed k target ↔ Slack.routeFor r.slackChannelId r.slackThreadTs = some target) := by
    intro k r target hr
    have hview : (d.register fun _ => false).tickets = d.tickets.committed := by simp
    rw [← hview] at hr ⊢
    exact hrooted.routedTo_iff hr
  refine ⟨fun n m target hm hstaff hto => ?_,fun n m hm hnot => ?_,h.dispatched.addressed⟩
  · obtain ⟨r,hr,hpaid⟩ := h.dispatched.paid n m hm
    have howed : owed n m r = some ⟨m.tenantId, n, target⟩ := by simp [owed, hstaff, (hroute hr).mp hto]
    rwa [howed] at hpaid
  · obtain ⟨r,hr,hpaid⟩ := h.dispatched.paid n m hm
    have howed : owed n m r = none := by
      rcases hnot with hcontact | hnot
      · exact if_pos hcontact
      · have hnone : Slack.routeFor r.slackChannelId r.slackThreadTs = none :=
          Option.eq_none_iff_forall_ne_some.mpr fun target ht => hnot target ((hroute hr).mpr ht)
        simp [owed, hnone]
    rwa [howed] at hpaid

end Nivara.Tickets
