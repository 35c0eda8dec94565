import Nivara.Tickets.Conversation

/-! The services with nobody beside them: when each statement is answered, and what it leaves. -/
namespace Nivara.Tickets
open Transactions

/-- A new version that differs in nothing but state, clocks and stamps. -/
structure Moves (old new : Ticket) : Prop where
  tenantId : new.tenantId = old.tenantId
  contactId : new.contactId = old.contactId
  subject : new.subject = old.subject
  spawnedFrom : new.spawnedFromTicketId = old.spawnedFromTicketId
  root : new.rootTicketId = old.rootTicketId
  channel : new.slackChannelId = old.slackChannelId
  thread : new.slackThreadTs = old.slackThreadTs
  priority : new.priority = old.priority
  assignee : new.assigneeId = old.assigneeId

theorem Moves.trans {a b c : Ticket} (hab : Moves a b) (hbc : Moves b c) : Moves a c :=
  ⟨hbc.tenantId.trans hab.tenantId,hbc.contactId.trans hab.contactId,hbc.subject.trans hab.subject,
    hbc.spawnedFrom.trans hab.spawnedFrom,hbc.root.trans hab.root,hbc.channel.trans hab.channel,hbc.thread.trans hab.thread,hbc.priority.trans hab.priority,
    hbc.assignee.trans hab.assignee⟩

theorem Moves.visibleTo {old new : Ticket} (h : Moves old new) (ctx : TenantContext) :
    new.visibleTo ctx = old.visibleTo ctx := by
  simp only [Ticket.visibleTo, h.tenantId, h.contactId]

theorem Moves.isWhole {old new : Ticket} (h : Moves old new) : new.isWhole = old.isWhole := by
  simp only [Ticket.isWhole, h.spawnedFrom, h.root, h.channel, h.thread]

section Statements
variable {ι : Type} [DecidableEq ι] {d : Desk ι} {i : ι} {ctx : TenantContext} {k : Uuid} {old new : Ticket}

def Desk.Solo (d : Desk ι) (i : ι) : Prop := ∀ k p, d.tickets.pending k = some p → p.1 = i

theorem Desk.Solo.free (h : d.Solo i) (k : Uuid) : d.tickets.free i [k] = true := by
  rw [Table.free_iff]
  intro k' _ j r hp
  exact h k' (j, r) hp

/-- The trigger lets a move by. -/
theorem enforceTransition_ok (hm : Moves old new) (now : Int)
    (hlegal : new.state = old.state ∨ ticketTransitionIsLegal old.state new.state = true) :
    ∃ r entries, ticketEnforceTransition k now old new = .ok (r, entries) ∧ Moves old r ∧ r.state = new.state := by
  have hlock : ¬ (old.state = .closed ∧ ((coerceLatches old new).priority ≠ old.priority ∨
      (coerceLatches old new).assigneeId ≠ old.assigneeId)) := by
    rintro ⟨_,hp | ha⟩
    · exact hp hm.priority
    · exact ha hm.assignee
  have hstep : ¬ ((coerceLatches old new).state ≠ old.state ∧
      ticketTransitionIsLegal old.state (coerceLatches old new).state = false) := by
    rintro ⟨hne,hill⟩
    rcases hlegal with hs | hs
    · exact hne hs
    · exact Bool.false_ne_true (hill.symm.trans hs)
  obtain ⟨r,entries,hr⟩ : ∃ r entries, ticketEnforceTransition k now old new = .ok (r, entries) := by
    simp only [ticketEnforceTransition, if_neg hlock, if_neg hstep]
    exact ⟨_,_,rfl⟩
  have henf := enforced_of_ok hr
  refine ⟨r,entries,hr,?_,henf.state⟩
  rw [henf.rest]
  exact ⟨hm.tenantId,hm.contactId,hm.subject,hm.spawnedFrom,hm.root,hm.channel,hm.thread,hm.priority,hm.assignee⟩

theorem storeTicket_ok (hm : Moves old new)
    (hlegal : new.state = old.state ∨ ticketTransitionIsLegal old.state new.state = true)
    (hv : old.visibleTo ctx = true) (hw : old.isWhole = true) :
    ∃ r audit, d.storeTicket i ctx k old new = .ok ({ d with
        tickets := d.tickets.write i [k] (fun _ => true) fun _ => r
        audit := audit }, r) ∧ Moves old r ∧ r.state = new.state := by
  obtain ⟨r,entries,henf,hmr,hstate⟩ := enforceTransition_ok (k := k) hm ctx.now hlegal
  refine ⟨r,entries.foldl (·.insert i) d.audit,?_,hmr,hstate⟩
  have hlink : enforceLinkageOnUpdate old new = .ok () := by
    simp [enforceLinkageOnUpdate, hm.spawnedFrom, hm.root, hm.channel, hm.thread]
  simp [Desk.storeTicket, hlink, henf, hmr.visibleTo, hv, hmr.isWhole, hw, hmr.assignee, bind, Except.bind, pure, Except.pure]

/-- A transaction has written its version `r` of Ticket `k`, and of the other tables only the log and
the Messages may have changed. -/
structure Wrote (d : Desk ι) (i : ι) (k : Uuid) (r : Ticket) (d' : Desk ι) : Prop where
  tickets : d'.tickets = d.tickets.write i [k] (fun _ => true) fun _ => r
  notes : d'.notes = d.notes
  contacts : d'.contacts = d.contacts
  deliveries : d'.deliveries = d.deliveries
  jobs : d'.jobs = d.jobs
  users : d'.users = d.users

theorem Wrote.solo {d' : Desk ι} {r : Ticket} (h : Wrote d i k r d') (hsolo : d.Solo i) : d'.Solo i := by
  intro j p hp
  by_contra hne
  have ho : d'.tickets.own p.1 j = some p.2 := (Table.own_eq_some_iff _ _ _).mpr hp
  rw [h.tickets, Table.own_write_other _ _ _ _ hne (hsolo.free k)] at ho
  exact hne (hsolo j p ((Table.own_eq_some_iff _ _ _).mp ho))

/-- The version it has written is what it sees. -/
theorem Wrote.sees {d' : Desk ι} {r : Ticket} (h : Wrote d i k r d') (hs : d.sees i ctx k = some old) (hm : Moves old r) :
    d'.sees i ctx k = some r := by
  obtain ⟨hvis,hto⟩ := Desk.sees_some.mp hs
  refine Desk.sees_some.mpr ⟨?_,by rw [hm.visibleTo, hto]⟩
  rw [h.tickets]
  exact Table.visible_of_own _ _ _ (Table.own_write_picked _ _ _ (by simp) hvis rfl)

/-- A Message of a Contact goes on any of its Tickets. -/
theorem ask_insertMessage (n : Nat) (body : String) (t : Int) (hsolo : d.Solo i) (hs : d.sees i ctx k = some old)
    (hw : old.isWhole = true) :
    ∃ d' r, (deskEngine ι).ask i ctx (.insertMessage k body t) (n + 1) d ((deskEngine ι).start d i ctx (.insertMessage k body t)) =
        some (d', .ok (d.messages.size, ⟨ctx.tenantId, k, body, ctx.actor, t⟩)) ∧ Wrote d i k r d' ∧
      d'.messages = d.messages.insert i ⟨ctx.tenantId, k, body, ctx.actor, t⟩ ∧ Moves old r ∧ r.state = old.state := by
  obtain ⟨hvis,hto⟩ := Desk.sees_some.mp hs
  have hmoves : Moves old (observeMessage ⟨ctx.tenantId, k, body, ctx.actor, t⟩ old) := ⟨rfl,rfl,rfl,rfl,rfl,rfl,rfl,rfl,rfl⟩
  obtain ⟨r,audit,hst,hmr,hstate⟩ := storeTicket_ok (d := d) (i := i) (k := k) hmoves (.inl rfl) hto hw
  refine ⟨{ d with
    tickets := d.tickets.write i [k] (fun _ => true) fun _ => r
    audit := audit
    messages := d.messages.insert i ⟨ctx.tenantId, k, body, ctx.actor, t⟩ },r,?_,⟨rfl,rfl,rfl,rfl,rfl,rfl⟩,rfl,hmr,hstate⟩
  have hmay : d.mayWriteAbout i ctx k = true := by simp [Desk.mayWriteAbout, hs]
  have hhas : d.hasTicket i ctx k = true := by
    simp only [Ticket.visibleTo, decide_eq_true_eq] at hto
    simp [Desk.hasTicket, hvis, hto.1]
  have hobs : d.observe i ctx k (observeMessage ⟨ctx.tenantId, k, body, ctx.actor, t⟩) = some (.ok { d with
      tickets := d.tickets.write i [k] (fun _ => true) fun _ => r
      audit := audit }) := by
    simp [Desk.observe, hsolo.free k, hs, hst, Except.map]
  simp [Engine.ask, deskEngine, Desk.resume, Desk.resumeInsertMessage, hmay, hhas, hobs]

/-- An `UPDATE` by key has the one row to visit. -/
theorem picked_of_key {plan : Uuid → Ticket → Option (Ticket → Option Ticket)} {set : Ticket → Option Ticket}
    (hs : d.sees i ctx k = some old) (hkey : ∀ j r, j ≠ k → plan j r = none) (hold : plan k old = some set) :
    d.picked i ctx plan = [(k, set)] := by
  obtain ⟨before,after,hrows⟩ := List.append_of_mem (Desk.mem_rows.mpr hs)
  have hnodup : ((d.rows i ctx).map Prod.fst).Nodup := Desk.rows_nodup
  rw [hrows, List.map_append, List.map_cons, List.nodup_append] at hnodup
  obtain ⟨_,hafter,hbefore⟩ := hnodup
  have hnone : ∀ l : List (Uuid × Ticket), (∀ p ∈ l, p.1 ≠ k) → l.filterMap (fun p => (plan p.1 p.2).map (p.1, ·)) = [] := by
    intro l hl
    refine List.filterMap_eq_nil_iff.mpr fun p hp => ?_
    rw [hkey p.1 p.2 (hl p hp)]
    rfl
  rw [Desk.picked, hrows, List.filterMap_append, List.filterMap_cons, hnone before, hnone after, hold]
  · rfl
  · intro p hp heq
    exact (List.nodup_cons.mp hafter).1 (List.mem_map.mpr ⟨p,hp,heq⟩)
  · intro p hp
    exact hbefore p.1 (List.mem_map.mpr ⟨p,hp,rfl⟩) k (by simp)

/-- A move of a Ticket that the context sees. -/
theorem ask_updateTickets (n : Nat) (plan : Uuid → Ticket → Option (Ticket → Option Ticket)) (new : Ticket)
    {set : Ticket → Option Ticket} (hsolo : d.Solo i) (hs : d.sees i ctx k = some old) (hw : old.isWhole = true)
    (hkey : ∀ j r, j ≠ k → plan j r = none) (hold : plan k old = some set) (hset : set old = some new) (hm : Moves old new)
    (hlegal : new.state = old.state ∨ ticketTransitionIsLegal old.state new.state = true) :
    ∃ d' r, (deskEngine ι).ask i ctx (.updateTickets plan) (n + 2) d ((deskEngine ι).start d i ctx (.updateTickets plan)) =
        some (d', .ok [(k, r)]) ∧ Wrote d i k r d' ∧ d'.messages = d.messages ∧ Moves old r ∧ r.state = new.state := by
  obtain ⟨r,audit,hst,hmr,hstate⟩ := storeTicket_ok (d := d) (i := i) (k := k) hm hlegal (Desk.sees_some.mp hs).2 hw
  refine ⟨{ d with
    tickets := d.tickets.write i [k] (fun _ => true) fun _ => r
    audit := audit },r,?_,⟨rfl,rfl,rfl,rfl,rfl,rfl⟩,rfl,hmr,hstate⟩
  have hstart : (deskEngine ι).start d i ctx (.updateTickets plan) = ([(k, set)], []) := by
    rw [← picked_of_key hs hkey hold]
    rfl
  rw [hstart]
  simp [Engine.ask, deskEngine, Desk.resume, Desk.resumeUpdate, hsolo.free k, hs, hset, hst]

/-- A new version that the triggers and constraints store as it is, with no row for the log. -/
def StoredAsIs (i : ι) (ctx : TenantContext) (k : Uuid) (old new : Ticket) : Prop :=
  ∀ d : Desk ι, d.storeTicket i ctx k old new =
    .ok ({ d with tickets := d.tickets.write i [k] (fun _ => true) fun _ => new }, new)

/-- An `UPDATE` that stores its rows as they are visits each of them once. `rows` lists what it sees, and
`after` is what it makes of a row. -/
theorem ask_visits (plan : Uuid → Ticket → Option (Ticket → Option Ticket)) (after : Ticket → Ticket) {n : Nat}
    {rows : List (Uuid × Ticket)} (written : List (Uuid × Ticket)) (hsolo : d.Solo i) (hkeys : (rows.map Prod.fst).Nodup)
    (hrows : ∀ p ∈ rows, d.sees i ctx p.1 = some p.2)
    (hset : ∀ k r set, plan k r = some set → set r = some (after r))
    (hstore : ∀ p ∈ rows, (plan p.1 p.2).isSome = true → StoredAsIs i ctx p.1 p.2 (after p.2)) (hn : rows.length < n) :
    ∃ tickets, (deskEngine ι).ask i ctx (.updateTickets plan) n d
        (rows.filterMap fun p => (plan p.1 p.2).map (p.1, ·), written) =
        some ({ d with tickets := tickets }, .ok (written ++ rows.filterMap fun p => (plan p.1 p.2).map fun _ => (p.1, after p.2))) ∧
      (∀ p ∈ rows, (plan p.1 p.2).isSome = true → tickets.visible i p.1 = some (after p.2)) ∧
      ∀ k, (∀ p ∈ rows, p.1 = k → plan p.1 p.2 = none) → tickets.visible i k = d.tickets.visible i k := by
  induction rows generalizing d n written with
  | nil =>
    obtain ⟨n,rfl⟩ : ∃ m, n = m + 1 := ⟨n - 1,by omega⟩
    refine ⟨d.tickets,?_,fun _ h => (by cases h),fun _ _ => rfl⟩
    simp [Engine.ask, deskEngine, Desk.resume, Desk.resumeUpdate]
  | cons p rest ih =>
    obtain ⟨k,old⟩ := p
    obtain ⟨hk,hkeys⟩ := List.nodup_cons.mp hkeys
    have hne : ∀ q ∈ rest, q.1 ≠ k := fun q hq heq => hk (List.mem_map.mpr ⟨q,hq,heq⟩)
    have hn' : rest.length + 1 < n := hn
    cases hplan : plan k old with
    | none =>
      obtain ⟨tickets,hask,hwritten,hleft⟩ := ih (n := n) written hsolo hkeys (fun q hq => hrows q (.tail _ hq))
        (fun q hq => hstore q (.tail _ hq)) (by omega)
      refine ⟨tickets,?_,fun q hq hdue => ?_,fun j hj => hleft j fun q hq => hj q (.tail _ hq)⟩
      · simpa [hplan] using hask
      · rcases List.mem_cons.mp hq with rfl | hq
        · rw [hplan] at hdue
          cases hdue
        · exact hwritten q hq hdue
    | some set =>
      obtain ⟨n,rfl⟩ : ∃ m, n = m + 1 := ⟨n - 1,by omega⟩
      have hs := hrows (k, old) (by simp)
      have hvis := (Desk.sees_some.mp hs).1
      have hnew := hset k old set hplan
      have hst := hstore (k, old) (by simp) (by simp [hplan]) d
      have hw : Wrote d i k (after old) { d with tickets := d.tickets.write i [k] (fun _ => true) fun _ => after old } :=
        ⟨rfl,rfl,rfl,rfl,rfl,rfl⟩
      have hvisible : ∀ j, j ≠ k → (d.tickets.write i [k] (fun _ => true) fun _ => after old).visible i j = d.tickets.visible i j := by
        intro j hj
        rw [Table.visible_eq_view, Table.visible_eq_view, Table.view_write _ _ _ (hsolo.free k) hvis, if_neg (fun hc => hj hc.1)]
      have hrest : ∀ q ∈ rest, Desk.sees { d with tickets := d.tickets.write i [k] (fun _ => true) fun _ => after old } i ctx q.1 =
          some q.2 := by
        intro q hq
        have hs' := hrows q (.tail _ hq)
        rw [Desk.sees, hvisible q.1 (hne q hq)]
        exact hs'
      obtain ⟨tickets,hask,hwritten,hleft⟩ := ih (n := n) (written ++ [(k, after old)]) (hw.solo hsolo) hkeys hrest
        (fun q hq => hstore q (.tail _ hq)) (by omega)
      refine ⟨tickets,?_,fun q hq hdue => ?_,fun j hj => ?_⟩
      · simp only [List.filterMap_cons, hplan, Option.map_some, Engine.ask]
        have hturn : (deskEngine ι).resume d i ctx (.updateTickets plan)
            ((k, set) :: rest.filterMap fun p => (plan p.1 p.2).map (p.1, ·), written) =
            .more { d with tickets := d.tickets.write i [k] (fun _ => true) fun _ => after old }
              (rest.filterMap fun p => (plan p.1 p.2).map (p.1, ·), written ++ [(k, after old)]) := by
          simp [deskEngine, Desk.resume, Desk.resumeUpdate, hsolo.free k, hs, hnew, hst]
        rw [hturn]
        simpa using hask
      · rcases List.mem_cons.mp hq with rfl | hq
        · rw [hleft k fun q hq heq => absurd heq (hne q hq)]
          exact Table.visible_of_own _ _ _ (Table.own_write_picked _ _ _ (by simp) hvis rfl)
        · exact hwritten q hq hdue
      · have hjk : j ≠ k := by
          rintro rfl
          have hnone := hj (j, old) (by simp) rfl
          rw [hplan] at hnone
          cases hnone
        rw [hleft j fun q hq => hj q (.tail _ hq)]
        exact hvisible j hjk

section NewTicket
variable {row r : Ticket} {n : Nat}

private theorem unblocked_of_solo (hsolo : d.Solo i) : (List.range d.tickets.size).any (d.blocks i r) = false := by
  refine List.any_eq_false.mpr fun k _ => ?_
  cases hp : d.tickets.pending k with
  | none => simp [Desk.blocks, hp]
  | some p => simp [Desk.blocks, hp, hsolo k p hp]

/-- What the triggers and constraints other than the unique indexes ask of a new Ticket. -/
structure Desk.Admits (d : Desk ι) (i : ι) (ctx : TenantContext) (row r : Ticket) : Prop where
  born : row.state = .opened
  linkage : enforceLinkageOnInsert (fun p => (d.sees i ctx p).filter (·.tenantId = row.tenantId)) row = .ok r
  visible : r.visibleTo ctx = true
  whole : r.isWhole = true
  contact : d.hasContact i r.tenantId r.contactId = true
  unassigned : r.assigneeId = none

theorem ask_insertTicket (hsolo : d.Solo i) (h : d.Admits i ctx row r)
    (hfree : ∀ k r', d.tickets.visible i k = some r' → conflicts d.tickets.size r k r' = false) :
    (deskEngine ι).ask i ctx (.insertTicket row) (n + 1) d ((deskEngine ι).start d i ctx (.insertTicket row)) =
      some ({ d with tickets := d.tickets.insert i r }, .ok (d.tickets.size, r)) := by
  have hcollides : (List.range d.tickets.size).any (d.collides i r) = false := by
    refine List.any_eq_false.mpr fun k _ => ?_
    cases hv : d.tickets.visible i k with
    | none => simp [Desk.collides, hv]
    | some r' => simp [Desk.collides, hv, hfree k r' hv]
  have hass : d.hasAssignee r = true := by simp [Desk.hasAssignee, h.unassigned]
  simp [Engine.ask, deskEngine, Desk.resume, Desk.resumeInsertTicket, h.born, h.linkage, h.visible, h.whole,
    unblocked_of_solo hsolo, hcollides, h.contact, hass]

/-- A Ticket that is in one of the unique indexes keeps a new one out. -/
theorem ask_insertTicket_refused (hsolo : d.Solo i) (h : d.Admits i ctx row r) {r' : Ticket}
    (hv : d.tickets.visible i k = some r') (hc : conflicts d.tickets.size r k r' = true) :
    (deskEngine ι).ask i ctx (.insertTicket row) (n + 1) d ((deskEngine ι).start d i ctx (.insertTicket row)) =
      some (d, .error .uniqueViolation) := by
  have hcollides : (List.range d.tickets.size).any (d.collides i r) = true := by
    refine List.any_eq_true.mpr ⟨k,List.mem_range.mpr (Table.lt_size_of_visible _ _ _ hv),?_⟩
    simp [Desk.collides, hv, hc]
  simp [Engine.ask, deskEngine, Desk.resume, Desk.resumeInsertTicket, h.born, h.linkage, h.visible, h.whole,
    unblocked_of_solo hsolo, hcollides]

/-- A new Ticket comes in or is refused; there is nobody to wait for. -/
theorem ask_insertTicket_cases (ctx : TenantContext) (row : Ticket) (hsolo : d.Solo i) :
    (∃ e, (deskEngine ι).ask i ctx (.insertTicket row) (n + 1) d ((deskEngine ι).start d i ctx (.insertTicket row)) =
      some (d, .error e)) ∨
    ∃ r, Admitted d i ctx row r ∧ (deskEngine ι).ask i ctx (.insertTicket row) (n + 1) d
      ((deskEngine ι).start d i ctx (.insertTicket row)) = some ({ d with tickets := d.tickets.insert i r }, .ok (d.tickets.size, r)) := by
  simp only [Engine.ask]
  cases hturn : (deskEngine ι).resume d i ctx (.insertTicket row) ((deskEngine ι).start d i ctx (.insertTicket row)) with
  | wait =>
    replace hturn : d.resumeInsertTicket (q := row) i ctx row = .wait := hturn
    unfold Desk.resumeInsertTicket at hturn
    simp only [unblocked_of_solo hsolo] at hturn
    repeat' split at hturn
    all_goals simp_all
  | refuse e => exact .inl ⟨e,rfl⟩
  | more d' c' =>
    obtain ⟨plan,hq⟩ := update_of_more hturn
    cases hq
  | answer d' a =>
    obtain ⟨r,hadm,rfl,rfl⟩ := Desk.admitted_of_answer hturn
    exact .inr ⟨r,hadm,rfl⟩

theorem ask_record {entry : Recorded} {t : Int} (hs : d.sees i ctx k = some old) :
    (deskEngine ι).ask i ctx (.record k entry t) (n + 1) d ((deskEngine ι).start d i ctx (.record k entry t)) =
      some ({ d with audit := d.audit.insert i (entry.entry k t) }, .ok ()) := by
  obtain ⟨hvis,hto⟩ := Desk.sees_some.mp hs
  have hk : (entry.entry k t).ticketId = k := by cases entry <;> rfl
  have hmay : d.mayWriteAbout i ctx k = true := by simp [Desk.mayWriteAbout, hs]
  have hhas : d.hasTicket i ctx k = true := by
    simp only [Ticket.visibleTo, decide_eq_true_eq] at hto
    simp [Desk.hasTicket, hvis, hto.1]
  simp [Engine.ask, deskEngine, Desk.resume, Desk.resumeRecord, hk, hmay, hhas]

end NewTicket

section Services
variable {α : Type} {n : Nat} {t : Int}

/-- `createIn`, whatever errors are thrown as. -/
theorem alone_createIn {row r : Ticket} {tenantId : Uuid} {input : CreateTicketInput} {g : Failure → Failure}
    {f : Uuid × Ticket → Tx α} (hsolo : d.Solo i)
    (hrow : row = .fresh tenantId input.subject input.contactId input.source input.spawnedFromTicketId input.slackRoute t)
    (h : d.Admits i ctx row r) (hfree : ∀ k r', d.tickets.visible i k = some r' → conflicts d.tickets.size r k r' = false) :
    ∃ audit, (((createIn tenantId input t).rethrow g).bind f).alone (deskEngine ι) i ctx (n + 1) d =
      (f (d.tickets.size, r)).alone (deskEngine ι) i ctx (n + 1)
        { d with tickets := d.tickets.insert i r, audit := audit } := by
  subst hrow
  have hs : Desk.sees { d with tickets := d.tickets.insert i r } i ctx d.tickets.size = some r :=
    Desk.sees_some.mpr ⟨Table.visible_of_own _ _ _ (Table.own_insert_self _ _ _),h.visible⟩
  exact ⟨_,(Script.alone_of_answer (ask_insertTicket hsolo h hfree)).trans (Script.alone_of_answer (ask_record hs))⟩

theorem alone_createIn_refused {row r r' : Ticket} {tenantId : Uuid} {input : CreateTicketInput} {g : Failure → Failure}
    {f : Uuid × Ticket → Tx α} (hsolo : d.Solo i)
    (hrow : row = .fresh tenantId input.subject input.contactId input.source input.spawnedFromTicketId input.slackRoute t)
    (h : d.Admits i ctx row r) (hv : d.tickets.visible i k = some r') (hc : conflicts d.tickets.size r k r' = true) :
    (((createIn tenantId input t).rethrow g).bind f).alone (deskEngine ι) i ctx (n + 1) d =
      some (d.rollback i, .error (some (g (.sql .uniqueViolation)))) := by
  subst hrow
  exact Script.alone_of_refusal (ask_insertTicket_refused hsolo h hv hc)

/-- `createIn` opens a Ticket, or it fails and leaves all as it was. -/
theorem alone_createIn_cases {tenantId : Uuid} {input : CreateTicketInput} {g : Failure → Failure} {f : Uuid × Ticket → Tx α}
    (hsolo : d.Solo i) :
    (∃ e, (((createIn tenantId input t).rethrow g).bind f).alone (deskEngine ι) i ctx (n + 1) d =
      some (d.rollback i, .error e)) ∨
    ∃ r audit, Admitted d i ctx (.fresh tenantId input.subject input.contactId input.source input.spawnedFromTicketId
        input.slackRoute t) r ∧
      (((createIn tenantId input t).rethrow g).bind f).alone (deskEngine ι) i ctx (n + 1) d =
        (f (d.tickets.size, r)).alone (deskEngine ι) i ctx (n + 1) { d with tickets := d.tickets.insert i r, audit := audit } := by
  rcases ask_insertTicket_cases (n := n) ctx (.fresh tenantId input.subject input.contactId input.source
    input.spawnedFromTicketId input.slackRoute t) hsolo with ⟨e,hask⟩ | ⟨r,hadm,hask⟩
  · exact .inl ⟨_,Script.alone_of_refusal hask⟩
  · have hs : Desk.sees { d with tickets := d.tickets.insert i r } i ctx d.tickets.size = some r :=
      Desk.sees_some.mpr ⟨Table.visible_of_own _ _ _ (Table.own_insert_self _ _ _),hadm.visible⟩
    exact .inr ⟨r,_,hadm,(Script.alone_of_answer hask).trans (Script.alone_of_answer (ask_record hs))⟩

/-- A Contact is sent nothing. -/
theorem dispatchIn_contact {id : Uuid} {message : Entry} (h : message.author.isContact = true) :
    dispatchIn id message = .done () := by
  simp [dispatchIn, h]

private theorem postIn_bind {body : String} {f : Uuid × Entry → Tx α} :
    (postIn k body t).bind f = Tx.findUnique k >>= fun row => ((match row with
      | none => .fail (AppException.notFound "Ticket")
      | some _ => .done () : Tx Unit).bind fun _ => (Tx.run (.insertMessage k body t) rethrowMissingTicket).bind fun m =>
        (dispatchIn m.1 m.2).bind fun _ => f m) := by
  simp only [postIn, assertTicketVisible, Script.bind_def, Script.bind_assoc]
  rfl

private theorem transitionIn_bind {to' : TicketState} {f : Uuid × Ticket → Tx α} :
    (transitionIn [] k to' t).bind f = Tx.findUnique k >>= fun row => (match row with
      | none => .fail (AppException.notFound "Ticket")
      | some current =>
        if canTransition current.state to' [] = false then .fail AppException.forbidden
        else (Tx.updateMany (fun j r => j = k ∧ r.state = current.state)
          (fun r => { r with state := to', updatedAt := t }) rethrowTicketRefusal).bind fun rows =>
          (if rows.isEmpty then .fail changedState else readBack k : Tx (Uuid × Ticket)).bind f : Tx α) := by
  simp only [transitionIn, Script.bind_def, Script.bind_assoc]
  congr 1
  funext row
  cases row with
  | none => rfl
  | some current =>
    simp only
    split
    · rfl
    · simp only [Script.bind_assoc]

private theorem readBack_bind {f : Uuid × Ticket → Tx α} :
    (readBack k).bind f = Tx.findUnique k >>= fun row => (match row with
      | none => .fail (AppException.notFound "Ticket")
      | some ticket => f (k, ticket) : Tx α) := by
  simp only [readBack, Script.bind_def, Script.bind_assoc]
  congr 1
  funext row
  cases row with
  | none => rfl
  | some ticket => rfl

/-- A Contact's Message on one of its Tickets. -/
theorem alone_postIn {body : String} {f : Uuid × Entry → Tx α} (hsolo : d.Solo i) (hs : d.sees i ctx k = some old)
    (hw : old.isWhole = true) (hc : ctx.actor.isContact = true) :
    ∃ d' r, ((postIn k body t).bind f).alone (deskEngine ι) i ctx (n + 1) d =
        (f (d.messages.size, ⟨ctx.tenantId, k, body, ctx.actor, t⟩)).alone (deskEngine ι) i ctx (n + 1) d' ∧
      Wrote d i k r d' ∧ d'.messages = d.messages.insert i ⟨ctx.tenantId, k, body, ctx.actor, t⟩ ∧ Moves old r ∧
      r.state = old.state := by
  obtain ⟨d',r,hask,hwrote,hmsg,hm,hstate⟩ := ask_insertMessage n body t hsolo hs hw
  refine ⟨d',r,?_,hwrote,hmsg,hm,hstate⟩
  rw [postIn_bind, alone_findUnique, hs]
  refine (Script.alone_of_answer hask).trans ?_
  show ((dispatchIn _ _).bind fun _ => f _).alone (deskEngine ι) i ctx (n + 1) d' = _
  rw [dispatchIn_contact hc]
  rfl

/-- A Ticket is moved by a Contact that sees it. -/
theorem alone_transitionIn {to' : TicketState} {f : Uuid × Ticket → Tx α} (hsolo : d.Solo i)
    (hs : d.sees i ctx k = some old) (hw : old.isWhole = true) (hto : to' ≠ .closed)
    (hlegal : ticketTransitionIsLegal old.state to' = true) :
    ∃ d' r, ((transitionIn [] k to' t).bind f).alone (deskEngine ι) i ctx (n + 2) d =
        (f (k, r)).alone (deskEngine ι) i ctx (n + 2) d' ∧
      Wrote d i k r d' ∧ d'.messages = d.messages ∧ Moves old r ∧ r.state = to' := by
  obtain ⟨d',r,hask,hwrote,hmsg,hm,hstate⟩ := ask_updateTickets n (fun j r =>
      if decide (j = k ∧ r.state = old.state) = true then some fun r =>
        if decide (j = k ∧ r.state = old.state) = true then some { r with state := to', updatedAt := t } else none
      else none) { old with state := to', updatedAt := t } hsolo hs hw (fun j r hj => by simp [hj]) (by simp; rfl) (by simp)
    ⟨rfl,rfl,rfl,rfl,rfl,rfl,rfl,rfl,rfl⟩ (.inr hlegal)
  refine ⟨d',r,?_,hwrote,hmsg,hm,hstate⟩
  rw [transitionIn_bind, alone_findUnique, hs]
  simp only [canTransition, hto, if_false, Bool.true_eq_false]
  refine (Script.alone_of_answer hask).trans ?_
  show ((readBack k).bind f).alone (deskEngine ι) i ctx (n + 2) d' = _
  rw [readBack_bind, alone_findUnique, hwrote.sees hs hm]

end Services
end Statements
end Nivara.Tickets
