import Nivara.Tickets.Confinement
import Nivara.Tickets.Conversation

/-! What a statement sees of two databases in which its tenant has the same rows. It takes the same turn on
both: the same answer or the same refusal, and the tenant's rows are the same again. -/
namespace Nivara.Tickets
open Transactions

variable {ι : Type} [DecidableEq ι] {d d' : Desk ι} {i : ι} {ctx : TenantContext} {k : Uuid}

namespace Desk.Alike
variable (h : d.Alike ctx.tenantId d')
include h

theorem sees : d.sees i ctx k = d'.sees i ctx k :=
  Table.filter_of_filter (h.tickets.filter_visible i k) fun _ hr => decide_eq_true (Ticket.tenantId_of_visibleTo hr)

theorem rows : d.rows i ctx = d'.rows i ctx := by
  simp only [Desk.rows, h.tickets.size, h.sees]

theorem picked (plan : Uuid → Ticket → Option (Ticket → Option Ticket)) : d.picked i ctx plan = d'.picked i ctx plan := by
  simp only [Desk.picked, h.rows]

theorem hasTicket : d.hasTicket i ctx k = d'.hasTicket i ctx k :=
  Table.any_of_filter (h.tickets.filter_visible i k) fun _ hr => hr

theorem hasContact (contactId : Uuid) : d.hasContact i ctx.tenantId contactId = d'.hasContact i ctx.tenantId contactId :=
  Table.any_of_filter (h.contacts.filter_visible i contactId) fun _ hr => hr

omit [DecidableEq ι] in
theorem hasAssignee {r : Ticket} (hr : r.tenantId = ctx.tenantId) : d.hasAssignee r = d'.hasAssignee r := by
  simp only [Desk.hasAssignee, hr, h.users]

theorem showsMessage (m : Entry) : d.showsMessage i ctx m = d'.showsMessage i ctx m := by
  by_cases hm : m.tenantId = ctx.tenantId
  · have hany := Table.any_of_filter (q := fun r => r.tenantId = m.tenantId ∧ ctx.actor.reaches r.contactId)
      (h.tickets.filter_visible i m.ticketId) fun r hr => by
        simp only [decide_eq_true_eq] at hr ⊢
        exact hr.1.trans hm
    simp only [Desk.showsMessage, hany]
  · simp [Desk.showsMessage, hm]

theorem messageRows : d.messageRows i ctx = d'.messageRows i ctx := by
  have hrow : ∀ n, (d.messages.visible i n).filter (d.showsMessage i ctx) = (d'.messages.visible i n).filter (d'.showsMessage i ctx) := by
    intro n
    rw [show d.showsMessage i ctx = d'.showsMessage i ctx from funext h.showsMessage]
    refine Table.filter_of_filter (h.messages.filter_visible i n) fun m hm => ?_
    simp only [Desk.showsMessage, decide_eq_true_eq] at hm ⊢
    exact hm.1
  simp only [Desk.messageRows, h.messages.size, hrow]

theorem mayWriteAbout : d.mayWriteAbout i ctx k = d'.mayWriteAbout i ctx k := by
  simp only [Desk.mayWriteAbout, h.sees]

/-- Storing a version of a Ticket in sight is refused in both, or goes the same way. -/
theorem storeTicket {old : Ticket} (new : Ticket) (hs : d.sees i ctx k = some old) :
    (∃ e, d.storeTicket i ctx k old new = .error e ∧ d'.storeTicket i ctx k old new = .error e) ∨
    ∃ r b b', d.storeTicket i ctx k old new = .ok (b, r) ∧ d'.storeTicket i ctx k old new = .ok (b', r) ∧
      b.Alike ctx.tenantId b' := by
  have hvis := (Desk.sees_some.mp hs).1
  have hvis' := (Desk.sees_some.mp (h.sees.symm.trans hs)).1
  simp only [Desk.storeTicket]
  cases enforceLinkageOnUpdate old new with
  | error e => exact .inl ⟨e,rfl,rfl⟩
  | ok u =>
    cases ticketEnforceTransition k ctx.now old new with
    | error e => exact .inl ⟨e,rfl,rfl⟩
    | ok p =>
      obtain ⟨r,entries⟩ := p
      simp only [bind, Except.bind]
      cases hr : r.visibleTo ctx with
      | false => exact .inl ⟨_,rfl,rfl⟩
      | true =>
        rw [h.hasAssignee (Ticket.tenantId_of_visibleTo hr)]
        simp only [Bool.true_eq_false, if_false]
        split
        · exact .inl ⟨_,rfl,rfl⟩
        · split
          · exact .inl ⟨_,rfl,rfl⟩
          · refine .inr ⟨r,_,_,rfl,rfl,?_⟩
            exact { h with
              tickets := h.tickets.write hvis hvis' r
              audit := h.audit.inserts i entries }

theorem observe (see : Ticket → Ticket) :
    d.observe i ctx k see = none ∧ d'.observe i ctx k see = none ∨
    (∃ e, d.observe i ctx k see = some (.error e) ∧ d'.observe i ctx k see = some (.error e)) ∨
    ∃ b b', d.observe i ctx k see = some (.ok b) ∧ d'.observe i ctx k see = some (.ok b') ∧ b.Alike ctx.tenantId b' := by
  have hfree : d.tickets.free i [k] = d'.tickets.free i [k] := by simp only [Table.free, h.tickets.pending]
  simp only [Desk.observe, hfree, ← h.sees]
  split
  · exact .inl ⟨rfl,rfl⟩
  · cases hs : d.sees i ctx k with
    | none => exact .inr (.inr ⟨d,d',rfl,rfl,h⟩)
    | some old =>
      dsimp only
      rcases h.storeTicket (see old) hs with ⟨e,he,he'⟩ | ⟨r,b,b',hb,hb',hbb⟩
      · exact .inr (.inl ⟨e,by rw [he]; rfl,by rw [he']; rfl⟩)
      · exact .inr (.inr ⟨b,b',by rw [hb]; rfl,by rw [hb']; rfl,hbb⟩)

theorem resumeUpdate {plan : Uuid → Ticket → Option (Ticket → Option Ticket)} (c : Cursor) :
    Turn.Alike (Desk.Alike ctx.tenantId) (d.resumeUpdate (p := plan) i ctx c) (d'.resumeUpdate (p := plan) i ctx c) := by
  obtain ⟨todo,written⟩ := c
  cases todo with
  | nil => exact .answer _ h
  | cons p rest =>
    obtain ⟨k,set⟩ := p
    have hfree : d.tickets.free i [k] = d'.tickets.free i [k] := by simp only [Table.free, h.tickets.pending]
    simp only [Desk.resumeUpdate, hfree, ← h.sees]
    split
    · exact .wait
    · cases hs : d.sees i ctx k with
      | none => exact .more _ h
      | some old =>
        cases hset : set old with
        | none =>
          simp only [Option.bind_some, hset, Option.map_none]
          exact .more _ h
        | some new =>
          simp only [Option.bind_some, hset, Option.map_some]
          rcases h.storeTicket new hs with ⟨e,he,he'⟩ | ⟨r,b,b',hb,hb',hbb⟩
          · rw [he, he']
            exact .refuse _
          · rw [hb, hb']
            exact .more _ hbb

theorem resumeInsertTicket {q : Ticket} (row : Ticket) :
    Turn.Alike (Desk.Alike ctx.tenantId) (d.resumeInsertTicket (q := q) i ctx row)
      (d'.resumeInsertTicket (q := q) i ctx row) := by
  simp only [Desk.resumeInsertTicket, h.sees]
  split
  · exact .refuse _
  · cases enforceLinkageOnInsert (fun p => (d'.sees i ctx p).filter (·.tenantId = row.tenantId)) row with
    | error e => exact .refuse _
    | ok r =>
      dsimp only
      by_cases hr : r.visibleTo ctx = false
      · rw [if_pos hr, if_pos hr]
        exact .refuse _
      · rw [if_neg hr, if_neg hr]
        have hten := Ticket.tenantId_of_visibleTo (by simpa using hr)
        -- what may conflict with the row is of its tenant
        have hsame : ∀ k s, conflicts d'.tickets.size r k s = true → decide (s.tenantId = ctx.tenantId) = true := by
          intro k s hc
          simp only [conflicts, sharesChain, sharesThread, Bool.or_eq_true, decide_eq_true_eq] at hc
          rcases hc with hc | hc <;> simp [← hten, hc.2.2.1]
        have hblocks : ∀ k, d.blocks i r k = d'.blocks i r k := by
          intro k
          simp only [Desk.blocks, h.tickets.size, h.tickets.pending,
            Table.any_of_filter (h.tickets.committed k) fun s hs => hsame k s hs]
        have hcollides : ∀ k, d.collides i r k = d'.collides i r k := by
          intro k
          simp only [Desk.collides, h.tickets.size,
            Table.any_of_filter (h.tickets.filter_visible i k) fun s hs => hsame k s hs]
        have hcontact : d.hasContact i r.tenantId r.contactId = d'.hasContact i r.tenantId r.contactId := by
          rw [hten]
          exact h.hasContact _
        simp only [funext hblocks, funext hcollides, hcontact, h.hasAssignee hten, h.tickets.size]
        split
        · exact .refuse _
        · split
          · exact .wait
          · split
            · exact .refuse _
            · split
              · exact .refuse _
              · exact .answer _ { h with tickets := h.tickets.insert i r }

theorem resumeInsertMessage {q : Uuid} {b : String} {t : Int} (m : Entry) :
    Turn.Alike (Desk.Alike ctx.tenantId) (d.resumeInsertMessage (q := q) (b := b) (t := t) i ctx m)
      (d'.resumeInsertMessage (q := q) (b := b) (t := t) i ctx m) := by
  simp only [Desk.resumeInsertMessage, h.mayWriteAbout, h.hasTicket]
  split
  · exact .refuse _
  · split
    · exact .refuse _
    · rcases h.observe (k := m.ticketId) (observeMessage m) with ⟨hb,hb'⟩ | ⟨e,hb,hb'⟩ | ⟨b,b',hb,hb',hbb⟩
      · rw [hb, hb']
        exact .wait
      · rw [hb, hb']
        exact .refuse _
      · rw [hb, hb']
        dsimp only
        rw [hbb.messages.size]
        exact .answer _ { hbb with messages := hbb.messages.insert i m }

theorem resumeInsertNote {q : Uuid} {b : String} {t : Int} (m : Entry) :
    Turn.Alike (Desk.Alike ctx.tenantId) (d.resumeInsertNote (q := q) (b := b) (t := t) i ctx m)
      (d'.resumeInsertNote (q := q) (b := b) (t := t) i ctx m) := by
  simp only [Desk.resumeInsertNote, h.hasTicket]
  split
  · exact .refuse _
  · split
    · exact .refuse _
    · rcases h.observe (k := m.ticketId) (observeNote m) with ⟨hb,hb'⟩ | ⟨e,hb,hb'⟩ | ⟨b,b',hb,hb',hbb⟩
      · rw [hb, hb']
        exact .wait
      · rw [hb, hb']
        exact .refuse _
      · rw [hb, hb']
        dsimp only
        rw [hbb.notes.size]
        exact .answer _ { hbb with notes := hbb.notes.insert i m }

theorem resumeRecord {q : Uuid} {b : Recorded} {t : Int} (e : AuditEntry) :
    Turn.Alike (Desk.Alike ctx.tenantId) (d.resumeRecord (q := q) (b := b) (t := t) i ctx e)
      (d'.resumeRecord (q := q) (b := b) (t := t) i ctx e) := by
  simp only [Desk.resumeRecord, h.mayWriteAbout, h.hasTicket]
  split
  · exact .refuse _
  · split
    · exact .refuse _
    · exact .answer _ { h with audit := h.audit.insert i e }

theorem resumeUpsertContact {q slackUserId : String} :
    Turn.Alike (Desk.Alike ctx.tenantId) (d.resumeUpsertContact (q := q) i ctx slackUserId)
      (d'.resumeUpsertContact (q := q) i ctx slackUserId) := by
  have hrow : ∀ k, d.contacts.visible i k = some ⟨ctx.tenantId, some slackUserId⟩ ↔
      d'.contacts.visible i k = some ⟨ctx.tenantId, some slackUserId⟩ := fun k =>
    Table.eq_some_of_filter (h.contacts.filter_visible i k) (by simp)
  simp only [Desk.resumeUpsertContact, h.contacts.size, h.contacts.pending, hrow]
  split
  · exact .refuse _
  · split
    · exact .answer _ h
    · split
      · exact .wait
      · exact .answer _ { h with contacts := h.contacts.insert i _ }

theorem resumeInsertDelivery {q : Uuid} {t : String} {row : Dispatch} (hrow : row.tenantId = ctx.tenantId) :
    Turn.Alike (Desk.Alike ctx.tenantId) (d.resumeInsertDelivery (q := q) (t := t) i ctx row)
      (d'.resumeInsertDelivery (q := q) (t := t) i ctx row) := by
  have hmessage : (d.messages.visible i row.messageId).any (·.tenantId = row.tenantId) =
      (d'.messages.visible i row.messageId).any (·.tenantId = row.tenantId) :=
    Table.any_of_filter (h.messages.filter_visible i row.messageId) fun m hm => by
      simpa [hrow] using hm
  have htaken : ∀ k, d.deliveries.visible i k = some row ↔ d'.deliveries.visible i k = some row := fun k =>
    Table.eq_some_of_filter (h.deliveries.filter_visible i k) (by simp [hrow])
  simp only [Desk.resumeInsertDelivery, hmessage, h.deliveries.size, h.deliveries.pending, htaken]
  split
  · exact .refuse _
  · split
    · exact .refuse _
    · split
      · exact .wait
      · split
        · exact .refuse _
        · exact .answer _ { h with deliveries := h.deliveries.insert i row }

end Desk.Alike

/-- No statement can tell the two apart. -/
theorem desk_lockstep (ι : Type) [DecidableEq ι] (i : ι) (ctx : TenantContext) (I : Desk ι → Prop) :
    (deskEngine ι).Lockstep i ctx I (Desk.Alike ctx.tenantId) where
  start {d d'} q _ _ h := by
    cases q with
    | updateTickets plan =>
      show (d.picked i ctx plan, []) = (d'.picked i ctx plan, [])
      rw [h.picked]
    | selectTickets picks => rfl
    | selectMessages picks => rfl
    | insertTicket row => rfl
    | insertMessage k body t => rfl
    | insertNote k body t => rfl
    | record k entry t => rfl
    | insertContact => rfl
    | upsertContact slackUserId => rfl
    | insertDelivery m target => rfl
    | enqueue m target => rfl
  turn {d d'} q c _ _ h := by
    cases q with
    | selectTickets picks =>
      simp only [deskEngine, Desk.resume, h.rows]
      exact .answer _ h
    | selectMessages picks =>
      simp only [deskEngine, Desk.resume, h.messageRows]
      exact .answer _ h
    | updateTickets plan => exact h.resumeUpdate c
    | insertTicket row => exact h.resumeInsertTicket row
    | insertMessage k body t => exact h.resumeInsertMessage _
    | insertNote k body t => exact h.resumeInsertNote _
    | record k entry t => exact h.resumeRecord _
    | insertContact =>
      simp only [deskEngine, Desk.resume, h.contacts.size]
      split
      · exact .refuse _
      · exact .answer _ { h with contacts := h.contacts.insert i _ }
    | upsertContact slackUserId => exact h.resumeUpsertContact
    | insertDelivery m target => exact h.resumeInsertDelivery rfl
    | enqueue m target =>
      simp only [deskEngine, Desk.resume]
      split
      · exact .refuse _
      · exact .answer _ { h with jobs := h.jobs.insert i _ }

section Transactions

private theorem keeps_of_write {P : Desk ι → Prop} (h : ∀ d d', P d → d.Write i ctx d' → P d') : (deskEngine ι).Keeps i ctx P := by
  have hwrites : ∀ d d', P d → Desk.Writes i ctx d d' → P d' := by
    intro d d' hd hw
    induction hw with
    | refl => exact hd
    | tail _ hw ih => exact h _ _ ih hw
  exact ⟨fun hd ht => hwrites _ _ hd (writes_of_more ht),fun hd ht => hwrites _ _ hd (writes_of_answer ht)⟩

theorem desk_keeps (i : ι) (ctx : TenantContext) : (deskEngine ι).Keeps i ctx (Desk.WorkedOn i ctx) :=
  keeps_of_write fun _ _ hd hw => hw.workedOn hd

def rowsLeft (_ : Stmt) (c : Cursor) : Nat := c.1.length

private theorem observes (hfree : d.tickets.free i [k] = true) (see : Ticket → Ticket) : d.observe i ctx k see ≠ none := by
  simp only [Desk.observe, hfree, Bool.true_eq_false, if_false]
  cases d.sees i ctx k <;> simp

/-- Nobody else holds a row that a statement could wait for. -/
theorem desk_prompt (i : ι) (ctx : TenantContext) : (deskEngine ι).Prompt i ctx (Desk.WorkedOn i ctx) rowsLeft where
  turn {d} q c h hwait := by
    have hfree := h.tickets.free
    cases q with
    | selectTickets picks => cases hwait
    | selectMessages picks => cases hwait
    | updateTickets plan =>
      obtain ⟨todo,written⟩ := c
      cases todo with
      | nil => cases hwait
      | cons p rest =>
        replace hwait : d.resumeUpdate (p := plan) i ctx (p :: rest, written) = .wait := hwait
        simp only [Desk.resumeUpdate, hfree, Bool.true_eq_false, if_false] at hwait
        repeat' split at hwait
        all_goals cases hwait
    | insertTicket row =>
      replace hwait : d.resumeInsertTicket (q := row) i ctx row = .wait := hwait
      have hblocks : ∀ r, (List.range d.tickets.size).any (d.blocks i r) = false := by
        intro r
        refine List.any_eq_false.mpr fun k _ => ?_
        cases hp : d.tickets.pending k with
        | none => simp [Desk.blocks, hp]
        | some p => simp [Desk.blocks, hp, (h.tickets k p hp).1]
      simp only [Desk.resumeInsertTicket, hblocks, Bool.false_eq_true, if_false] at hwait
      repeat' split at hwait
      all_goals cases hwait
    | insertMessage k body t =>
      replace hwait : d.resumeInsertMessage (q := k) (b := body) (t := t) i ctx _ = .wait := hwait
      unfold Desk.resumeInsertMessage at hwait
      split at hwait
      · cases hwait
      · split at hwait
        · cases hwait
        · split at hwait
          · rename_i hnone
            exact observes (hfree k) _ hnone
          · cases hwait
          · cases hwait
    | insertNote k body t =>
      replace hwait : d.resumeInsertNote (q := k) (b := body) (t := t) i ctx _ = .wait := hwait
      unfold Desk.resumeInsertNote at hwait
      split at hwait
      · cases hwait
      · split at hwait
        · cases hwait
        · split at hwait
          · rename_i hnone
            exact observes (hfree k) _ hnone
          · cases hwait
          · cases hwait
    | record k entry t =>
      replace hwait : d.resumeRecord (q := k) (b := entry) (t := t) i ctx _ = .wait := hwait
      unfold Desk.resumeRecord at hwait
      repeat' split at hwait
      all_goals cases hwait
    | insertContact =>
      simp only [deskEngine, Desk.resume] at hwait
      split at hwait <;> cases hwait
    | upsertContact slackUserId =>
      replace hwait : d.resumeUpsertContact (q := slackUserId) i ctx slackUserId = .wait := hwait
      simp only [Desk.resumeUpsertContact] at hwait
      split at hwait
      · cases hwait
      · split at hwait
        · cases hwait
        · rename_i hnone
          split at hwait
          · rename_i hpending
            -- a row of its own it would have found
            obtain ⟨k,hk,hp⟩ := List.any_eq_true.mp hpending
            obtain ⟨p,hp,hrow⟩ := (Option.any_eq_true _ _).mp hp
            have hown : d.contacts.own i k = some p.2 :=
              (Table.own_eq_some_iff _ _ _).mpr (by rw [hp, ← (h.contacts k p hp).1])
            have hfind := List.find?_eq_none.mp hnone k hk
            simp only [decide_eq_true_eq] at hrow
            rw [Table.visible_of_own _ _ _ hown, hrow] at hfind
            simp at hfind
          · cases hwait
    | insertDelivery m target =>
      replace hwait : d.resumeInsertDelivery (q := m) (t := target) i ctx ⟨ctx.tenantId, m, target⟩ = .wait := hwait
      have hheld : ((List.range d.deliveries.size).any fun k => (d.deliveries.pending k).any fun p =>
          p.1 ≠ i ∧ p.2 = (⟨ctx.tenantId, m, target⟩ : Dispatch)) = false := by
        refine List.any_eq_false.mpr fun k _ => ?_
        cases hp : d.deliveries.pending k with
        | none => simp
        | some p => simp [(h.deliveries k p hp).1]
      simp only [Desk.resumeInsertDelivery, hheld, Bool.false_eq_true, if_false] at hwait
      repeat' split at hwait
      all_goals cases hwait
    | enqueue m target =>
      simp only [deskEngine, Desk.resume] at hwait
      split at hwait <;> cases hwait
  fewer h ht := by
    obtain ⟨plan,rfl⟩ := update_of_more ht
    obtain ⟨k,set,rest,written,rfl,_,⟨_,rfl⟩ | ⟨_,_,_,_,_,_,rfl⟩⟩ := Desk.updated_of_more ht
    · exact Nat.lt_succ_self _
    · exact Nat.lt_succ_self _

def Desk.Sighted (i : ι) (ctx : TenantContext) (d : Desk ι) : (q : Stmt) → q.Ans → Prop
  | .selectTickets picks, (rows : List (Uuid × Ticket)) =>
    ∀ p ∈ rows, picks p.1 p.2 = true ∧ (d.sees i ctx p.1).isSome = true ∧ p.2.visibleTo ctx = true
  | .selectMessages _, (rows : List (Uuid × Entry)) => ∀ p ∈ rows, (d.sees i ctx p.2.ticketId).isSome = true
  | .insertTicket _, row => (d.sees i ctx row.1).isSome = true ∧ row.2.visibleTo ctx = true
  | .insertMessage _ _ _, row => (d.sees i ctx row.2.ticketId).isSome = true
  | _, _ => True

private theorem Desk.Sighted.writes {q : Stmt} {a : q.Ans} (h : d.Sighted i ctx q a) (hw : Desk.Writes i ctx d d') :
    d'.Sighted i ctx q a := by
  cases q with
  | selectTickets picks =>
    intro p hp
    obtain ⟨hpick,hs,hto⟩ := h p hp
    exact ⟨hpick,hw.sees hs,hto⟩
  | selectMessages picks => exact fun p hp => hw.sees (h p hp)
  | insertTicket row => exact ⟨hw.sees h.1,h.2⟩
  | insertMessage k body t => exact hw.sees h
  | updateTickets plan => trivial
  | insertNote k body t => trivial
  | record k entry t => trivial
  | insertContact => trivial
  | upsertContact slackUserId => trivial
  | insertDelivery m target => trivial
  | enqueue m target => trivial

private theorem sees_of_shows {m : Entry} (hc : ctx.actor.isContact = true) (h : d.showsMessage i ctx m = true) :
    (d.sees i ctx m.ticketId).isSome = true := by
  simp only [Desk.showsMessage, hc, decide_eq_true_eq, Bool.true_eq_false, false_or] at h
  obtain ⟨r,hr,hto⟩ := (Option.any_eq_true _ _).mp h.2
  simp only [decide_eq_true_eq] at hto
  rw [Desk.sees_some.mpr ⟨hr,by simp [Ticket.visibleTo, hto.1, hto.2, h.1]⟩]
  rfl

theorem desk_vouches (hc : ctx.actor.isContact = true) :
    (deskEngine ι).Vouches i ctx (Desk.WorkedOn i ctx) (Desk.Sighted i ctx) where
  answer {q c d d' a} h ht := by
    cases q with
    | selectTickets picks =>
      cases ht
      intro p hp
      obtain ⟨hrow,hpick⟩ := List.mem_filter.mp hp
      have hs := Desk.mem_rows.mp hrow
      exact ⟨hpick,by rw [hs]; rfl,(Desk.sees_some.mp hs).2⟩
    | selectMessages picks =>
      cases ht
      intro p hp
      obtain ⟨n,_,hn⟩ := List.mem_filterMap.mp (List.mem_filter.mp hp).1
      obtain ⟨m,hm,rfl⟩ := Option.map_eq_some_iff.mp hn
      exact sees_of_shows hc (Option.filter_eq_some_iff.mp hm).2
    | insertTicket row =>
      obtain ⟨r,hr,rfl,rfl⟩ := Desk.admitted_of_answer ht
      refine ⟨?_,hr.visible⟩
      have hs : Desk.sees { d with tickets := d.tickets.insert i r } i ctx d.tickets.size = some r :=
        Desk.sees_some.mpr ⟨Table.visible_of_own _ _ _ (Table.own_insert_self _ _ _),hr.visible⟩
      show (Desk.sees { d with tickets := d.tickets.insert i r } i ctx d.tickets.size).isSome = true
      rw [hs]
      rfl
    | insertMessage k body t =>
      have hw := writes_of_answer ht
      obtain ⟨old,r,d₁,_,hs,_,rfl,_⟩ := Desk.posted_of_answer ht
      exact hw.sees (by rw [hs]; rfl)
    | updateTickets plan => trivial
    | insertNote k body t => trivial
    | record k entry t => trivial
    | insertContact => trivial
    | upsertContact slackUserId => trivial
    | insertDelivery m target => trivial
    | enqueue m target => trivial
  lasts q a := keeps_of_write fun _ _ h hw => ⟨hw.workedOn h.1,h.2.writes (.single hw)⟩

/-- What a transaction may have done by its end: the other tenants have their rows, and the Tickets and
Messages that are not as they were are in the sight of its context. -/
structure Desk.Confined (ctx : TenantContext) (d e : Desk ι) : Prop where
  idle : e.Idle
  others : ∀ U, U ≠ ctx.tenantId → d.AgreeOn U e
  tickets : ∀ k, e.tickets.committed k ≠ d.tickets.committed k →
    (e.tickets.committed k).any (·.visibleTo ctx) = true ∧ (d.tickets.committed k).all (·.visibleTo ctx) = true
  messages : ∀ k, e.messages.committed k ≠ d.messages.committed k →
    ∃ m, e.messages.committed k = some m ∧ (e.tickets.committed m.ticketId).any (·.visibleTo ctx) = true

/-- What is in sight at the end is there when the transaction is over. -/
theorem Desk.visible_commit (h : (d.sees i ctx k).isSome = true) : ((d.commit i).tickets.committed k).any (·.visibleTo ctx) = true := by
  obtain ⟨r,hr⟩ := Option.isSome_iff_exists.mp h
  obtain ⟨hvis,hto⟩ := Desk.sees_some.mp hr
  show (d.tickets.visible i k).any _ = true
  rw [hvis]
  exact hto

private theorem confined_commit {d₀ : Desk ι} (h : d₀.Working i ctx d) : d₀.Confined ctx (d.commit i) where
  idle := h.workedOn.idle_commit
  others U hU := (h.agreeOn U).trans (h.workedOn.others_commit hU)
  tickets k hne := by
    rw [← h.unchanged.tickets] at hne ⊢
    cases ho : d.tickets.own i k with
    | none => exact absurd (Table.visible_of_no_own _ _ _ ho) hne
    | some r =>
      obtain ⟨hr,hc⟩ := h.workedOn.tickets.of_own ho
      refine ⟨?_,hc⟩
      show (d.tickets.visible i k).any _ = true
      rw [Table.visible_of_own _ _ _ ho]
      exact hr
  messages k hne := by
    rw [← h.unchanged.messages] at hne
    cases ho : d.messages.own i k with
    | none => exact absurd (Table.visible_of_no_own _ _ _ ho) hne
    | some m =>
      obtain ⟨hm,_⟩ := h.workedOn.messages.of_own ho
      simp only [decide_eq_true_eq] at hm
      exact ⟨m,Table.visible_of_own _ _ _ ho,Desk.visible_commit hm.2⟩

private theorem confined_rollback {d₀ : Desk ι} (h : d₀.Working i ctx d) : d₀.Confined ctx (d.rollback i) where
  idle := h.workedOn.idle_rollback
  others U _ := (h.agreeOn U).trans (Desk.WorkedOn.others_rollback d i U)
  tickets k hne := absurd (congrFun h.unchanged.tickets k) hne
  messages k hne := absurd (congrFun h.unchanged.messages k) hne

variable {α : Type} {p : Tx α} {n : Nat} {e : Desk ι} {x : Except (Option Failure) α}

/-- A transaction stays within the rows of its context. -/
theorem alone_confined (hd : d.Idle) (h : p.alone (deskEngine ι) i ctx n d = some (e, x)) : d.Confined ctx e := by
  have hkeeps : (deskEngine ι).Keeps i ctx (d.Working i ctx) := keeps_of_write fun _ _ h hw => h.write hw
  exact Script.alone_invariant (fun _ _ _ _ _ _ _ hd ht => hkeeps.more hd ht) (fun _ _ _ _ _ _ _ hd ht => hkeeps.answer hd ht)
    (fun _ => confined_commit) (fun _ => confined_rollback) p.only_any ⟨hd.workedOn i ctx,.refl d,rfl⟩ h

/-- Whatever the other tenants have, a transaction does the same. -/
theorem alone_alike (hd : d.Idle) (hd' : d'.Idle) (hr : d.Alike ctx.tenantId d')
    (h : p.alone (deskEngine ι) i ctx n d = some (e, x)) :
    ∃ e', p.alone (deskEngine ι) i ctx n d' = some (e', x) ∧ e.Alike ctx.tenantId e' :=
  Script.alone_lockstep (desk_keeps i ctx) (desk_lockstep ι i ctx _) (fun _ _ hb hb' hr => hr.commit hb hb')
    (fun _ _ _ _ hr => hr.rollback i) (hd.workedOn i ctx) (hd'.workedOn i ctx) hr h

/-- It comes to its end. -/
theorem alone_ends (p : Tx α) (i : ι) (ctx : TenantContext) (hd : d.Idle) :
    ∃ n x, p.alone (deskEngine ι) i ctx n d = some x :=
  Script.alone_total (desk_keeps i ctx) (desk_prompt i ctx) p (hd.workedOn i ctx)

/-- What a Contact's transaction gives back is made of what was in its sight. -/
theorem alone_sighted {a : α} (hc : ctx.actor.isContact = true) (hd : d.Idle)
    (h : p.alone (deskEngine ι) i ctx n d = some (e, .ok a)) :
    ∃ d₁ : Desk ι, e = d₁.commit i ∧ ∀ P, p.Yields (d₁.Sighted i ctx) P → P a := by
  obtain ⟨d₁,_,he,_,hP⟩ := Script.alone_yields (desk_keeps i ctx) (desk_vouches hc) (hd.workedOn i ctx) h
  exact ⟨d₁,he,hP⟩

end Transactions

end Nivara.Tickets
