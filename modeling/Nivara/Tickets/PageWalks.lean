import Nivara.Pagination.Following
import Nivara.Tickets.Conversation
import Nivara.Tickets.Requests

/-! The queue and the threads, page by page, as a client reads them: it calls the service again with the `nextCursor` of
the page before, and other transactions run in between. -/
namespace Nivara.Tickets
open Transactions Pagination Text

def OnCalendar (t : Int) : Prop := timeClip t = some t ∧ inColumn t = true

section Requests
variable {κ : Type} [LinearOrder κ] (P : Platform κ) {ι : Type} [DecidableEq ι] (i : ι) (n : ℕ) (p : Principal)

abbrev Moment (ι : Type) := Int × Desk ι

def Platform.ticketPage (input : ListTicketsInput) (m : Moment ι) (cursor : Option Str) : Option (Page (Uuid × Ticket)) :=
  match P.serve i n ⟨.list p { input with cursor }, m.1, m.1⟩ m.2 with
  | some (_, .ok (.ticketPage page)) => page
  | _ => none

def Platform.messagePage (ticketId : Uuid) (input : ListThreadInput) (m : Moment ι) (cursor : Option Str) :
    Option (Page (Uuid × Entry)) :=
  match P.serve i n ⟨.listForTicket p ticketId { input with cursor }, m.1, m.1⟩ m.2 with
  | some (_, .ok (.messagePage page)) => page
  | _ => none

end Requests

section Rows
variable {κ : Type} [LinearOrder κ] (P : Platform κ) {ι : Type} (p : Principal) (where' : TicketWhere) (d : Desk ι)

/-- The Ticket is committed, the policy lets the principal see it, and it passes the filters. -/
structure Platform.InQueue (x : Uuid × Ticket) : Prop where
  committed : d.tickets.committed x.1 = some x.2
  tenant : x.2.tenantId = p.tenantId
  contact : ∀ c, p.actor = .contact c → x.2.contactId = c
  admitted : where'.admits P x.2 = true

structure InThread (ticketId : Uuid) (x : Uuid × Entry) : Prop where
  committed : d.messages.committed x.1 = some x.2
  tenant : x.2.tenantId = p.tenantId
  ticket : x.2.ticketId = ticketId

def Platform.Before {Row : Type} (sort : Sorting) (date : Row → Int) (x y : Uuid × Row) : Prop :=
  match sort.direction with
  | .asc => date x.2 < date y.2 ∨ date x.2 = date y.2 ∧ P.key (P.name x.1) < P.key (P.name y.1)
  | .desc => date y.2 < date x.2 ∨ date y.2 = date x.2 ∧ P.key (P.name y.1) < P.key (P.name x.1)

def sortDate (sort : Sorting) (r : Ticket) : Int := if sort.field = units "createdAt" then r.createdAt else r.updatedAt

/-- A connection that has written nothing, on rows with identifiers and dates of the database's own. -/
structure Platform.Reads (i : ι) [DecidableEq ι] : Prop where
  tickets : ∀ k, d.tickets.own i k = none
  messages : ∀ k, d.messages.own i k = none
  named : ∀ k, k < d.tickets.size ∨ k < d.messages.size → isUuidText (P.name k) = true
  apart : ∀ k k', k < d.tickets.size ∧ k' < d.tickets.size ∨ k < d.messages.size ∧ k' < d.messages.size →
    P.key (P.name k) = P.key (P.name k') → k = k'
  ticket : ∀ k r, d.tickets.committed k = some r → OnCalendar r.createdAt ∧ OnCalendar r.updatedAt
  message : ∀ k r, d.messages.committed k = some r → OnCalendar r.createdAt

end Rows

section Answers
variable {κ : Type} [LinearOrder κ] {P : Platform κ} {ι : Type} [DecidableEq ι] {i : ι} {n : ℕ} {m : Moment ι} {p : Principal}
  {cursor : Option Str} {sort : Sorting} {plan : KeysetPlan}

private def queue (P : Platform κ) (i : ι) (p : Principal) (where' : TicketWhere) (m : Moment ι) : List (Uuid × Ticket) :=
  (m.2.rows i ⟨p.tenantId, p.actor, m.1⟩).filter fun x => where'.admits P x.2

private def thread (i : ι) (p : Principal) (ticketId : Uuid) (m : Moment ι) : List (Uuid × Entry) :=
  (m.2.messageRows i ⟨p.tenantId, p.actor, m.1⟩).filter fun x => x.2.ticketId = ticketId

private theorem ticketPage_eq {input : ListTicketsInput} {where' : TicketWhere}
    (hsort : parseSort input.sort (sortableFieldNames ticketSortable) = .ok sort)
    (hplan : keysetPlan P.base64 P.host sort cursor ticketSortable = .ok plan)
    (hwhere : ticketWhere P.host input.filters = .ok where') (hruns : runs where' plan = true) :
    P.ticketPage i (n + 1) p input m cursor =
      buildPage P.tickets (Pagination.findMany P.tickets plan (input.limit + 1) (queue P i p where' m)) input.limit sort := by
  have hlist : listTickets P { input with cursor } = .ok (do
      let rows ← Tx.findMany fun _ r => where'.admits P r
      pure (buildPage P.tickets (Pagination.findMany P.tickets plan (input.limit + 1) rows) input.limit sort)) := by
    simp only [listTickets, hsort, hplan, hwhere, Except.mapError, bind, Except.bind, hruns, if_true]
  simp only [Platform.ticketPage, Platform.serve, Invocation.script, hlist, bind, Except.bind]
  rfl

private theorem alone_assertTicketVisible {α : Type} {d : Desk ι} {ctx : TenantContext} {k : Uuid} {r : Ticket} {f : Unit → Tx α}
    (h : d.sees i ctx k = some r) :
    (assertTicketVisible k >>= f).alone (deskEngine ι) i ctx (n + 1) d = (f ()).alone (deskEngine ι) i ctx (n + 1) d := by
  have hassoc : (assertTicketVisible k >>= f).alone (deskEngine ι) i ctx (n + 1) d = _ :=
    congrArg (fun p : Tx α => p.alone (deskEngine ι) i ctx (n + 1) d) (Script.bind_assoc (Tx.findUnique k) _ f)
  rw [hassoc]
  exact alone_findUnique.trans (by rw [h]; rfl)

private theorem messagePage_eq {input : ListThreadInput} {ticketId : Uuid}
    (hsort : parseSort input.sort (sortableFieldNames threadSortable) = .ok sort)
    (hplan : keysetPlan P.base64 P.host sort cursor threadSortable = .ok plan) (hruns : plan.where'.all Seek.runs = true)
    (hsees : (m.2.sees i ⟨p.tenantId, p.actor, m.1⟩ ticketId).isSome = true) :
    P.messagePage i (n + 1) p ticketId input m cursor =
      buildPage P.messages (Pagination.findMany P.messages plan (input.limit + 1) (thread i p ticketId m)) input.limit sort := by
  have hlist : Tickets.listForTicket P ticketId { input with cursor } = .ok (do
      assertTicketVisible ticketId
      let rows ← Tx.run (.selectMessages fun _ m => m.ticketId = ticketId) .sql
      pure (buildPage P.messages (Pagination.findMany P.messages plan (input.limit + 1) rows) input.limit sort)) := by
    simp only [Tickets.listForTicket, hsort, hplan, Except.mapError, bind, Except.bind, hruns, if_true]
  obtain ⟨r,hr⟩ := Option.isSome_iff_exists.mp hsees
  have hpage : ((do
      assertTicketVisible ticketId
      let rows ← Tx.run (.selectMessages fun _ m => m.ticketId = ticketId) .sql
      pure (buildPage P.messages (Pagination.findMany P.messages plan (input.limit + 1) rows) input.limit sort) : Tx _).alone
      (deskEngine ι) i ⟨p.tenantId, p.actor, m.1⟩ (n + 1) m.2) = some ((deskEngine ι).commit m.2 i, .ok (buildPage P.messages
        (Pagination.findMany P.messages plan (input.limit + 1) (thread i p ticketId m)) input.limit sort)) :=
    alone_assertTicketVisible hr
  have hserve : P.serve i (n + 1) ⟨.listForTicket p ticketId { input with cursor }, m.1, m.1⟩ m.2 =
      some ((deskEngine ι).commit m.2 i, .ok (.messagePage (buildPage P.messages
        (Pagination.findMany P.messages plan (input.limit + 1) (thread i p ticketId m)) input.limit sort))) := by
    simp only [Platform.serve, Invocation.script, hlist, bind, Except.bind]
    exact (congrArg _ (Script.alone_map Outcome.messagePage _ m.2)).trans (by rw [Asked.context]; exact congrArg _ (congrArg _ hpage))
  simp only [Platform.messagePage, hserve]

end Answers

section Pages
variable {κ : Type} [LinearOrder κ] {P : Platform κ} {ι : Type} [DecidableEq ι] {i : ι} {n : ℕ} {m : Moment ι} {p : Principal}
  {sort : Sorting}

private theorem dateColumn_eq {t : Int} (h : OnCalendar t) : ∃ ht : timeClip t = some t, dateColumn t = some (.date ⟨t, ht⟩) :=
  ⟨h.1,dif_pos h.1⟩

private theorem runs_seekPast {date : Int} {name : Str} (hd : OnCalendar date) (hn : isUuidText name = true) :
    (seekPast sort (.date (some date)) name).runs = true := by
  by_cases hid : sort.field = units "id"
  · simp only [seekPast, if_pos hid]
    exact hn
  · simp only [seekPast, if_neg hid, Seek.runs, hn, Option.any_some, hd.2, Bool.and_true]

private def ticketsPaged (hfield : sort.field = units "createdAt" ∨ sort.field = units "updatedAt") :
    Paged P.tickets ticketSortable sort Seek.runs
      fun x => isUuidText (P.name x.1) = true ∧ OnCalendar x.2.createdAt ∧ OnCalendar x.2.updatedAt where
  date x := sortDate sort x.2
  column := by
    rintro x ⟨_,hc,hu⟩
    by_cases h : sort.field = units "createdAt"
    · obtain ⟨ht,hcol⟩ := dateColumn_eq hc
      rw [sortDate, if_pos h]
      exact ⟨ht,(if_pos h).trans hcol⟩
    · obtain ⟨ht,hcol⟩ := dateColumn_eq hu
      rw [sortDate, if_neg h]
      exact ⟨ht,(if_neg h).trans ((if_pos (hfield.resolve_left h)).trans hcol)⟩
  kind := by
    rcases hfield with h | h <;> rw [h] <;> decide
  field := by
    rcases hfield with h | h <;> rw [h] <;> decide
  accepted := by
    rintro x ⟨hn,hc,hu⟩
    refine runs_seekPast ?_ hn
    unfold sortDate
    split
    · exact hc
    · exact hu

private def messagesPaged (hfield : sort.field = units "createdAt") :
    Paged P.messages threadSortable sort Seek.runs fun x => isUuidText (P.name x.1) = true ∧ OnCalendar x.2.createdAt where
  date x := x.2.createdAt
  column := by
    rintro x ⟨_,hc⟩
    obtain ⟨ht,hcol⟩ := dateColumn_eq hc
    exact ⟨ht,(if_pos hfield).trans hcol⟩
  kind := by
    rw [hfield]
    decide
  field := by
    rw [hfield]
    decide
  accepted := fun _ hx => runs_seekPast hx.2 hx.1

private theorem mem_queue {where' : TicketWhere} {x : Uuid × Ticket} (h : P.Reads m.2 i) :
    x ∈ queue P i p where' m ↔ P.InQueue p where' m.2 x := by
  rw [queue, List.mem_filter, Desk.mem_rows, Desk.sees_some, Table.visible_of_no_own _ _ _ (h.tickets x.1)]
  have hvisible : x.2.visibleTo ⟨p.tenantId, p.actor, m.1⟩ = true ↔
      x.2.tenantId = p.tenantId ∧ ∀ c, p.actor = .contact c → x.2.contactId = c := by
    cases hp : p.actor <;> simp [Ticket.visibleTo, Actor.reaches]
  constructor
  · rintro ⟨⟨hc,hv⟩,ha⟩
    exact ⟨hc,(hvisible.mp hv).1,(hvisible.mp hv).2,ha⟩
  · rintro ⟨hc,ht,hcontact,ha⟩
    exact ⟨⟨hc,hvisible.mpr ⟨ht,hcontact⟩⟩,ha⟩

omit [LinearOrder κ] in
private theorem mem_thread {ticketId : Uuid} {x : Uuid × Entry} (h : P.Reads m.2 i)
    (hsees : (m.2.sees i ⟨p.tenantId, p.actor, m.1⟩ ticketId).isSome = true) :
    x ∈ thread i p ticketId m ↔ InThread p m.2 ticketId x := by
  obtain ⟨r,hr⟩ := Option.isSome_iff_exists.mp hsees
  obtain ⟨hvis,hto⟩ := Desk.sees_some.mp hr
  have hmem : x ∈ m.2.messageRows i ⟨p.tenantId, p.actor, m.1⟩ ↔
      m.2.messages.committed x.1 = some x.2 ∧ m.2.showsMessage i ⟨p.tenantId, p.actor, m.1⟩ x.2 = true := by
    rw [← Table.visible_of_no_own _ _ _ (h.messages x.1), Desk.messageRows, List.mem_filterMap]
    constructor
    · rintro ⟨k,_,hk⟩
      obtain ⟨r',hfilter,rfl⟩ := Option.map_eq_some_iff.mp hk
      exact Option.filter_eq_some_iff.mp hfilter
    · rintro ⟨hv,hs⟩
      exact ⟨x.1,List.mem_range.mpr (Table.lt_size_of_visible _ _ _ hv),
        Option.map_eq_some_iff.mpr ⟨x.2,Option.filter_eq_some_iff.mpr ⟨hv,hs⟩,rfl⟩⟩
  have hshows (ht : x.2.ticketId = ticketId) :
      m.2.showsMessage i ⟨p.tenantId, p.actor, m.1⟩ x.2 = true ↔ x.2.tenantId = p.tenantId := by
    simp only [Ticket.visibleTo, decide_eq_true_eq] at hto
    simp only [Desk.showsMessage, ht, hvis, Option.any_some, hto.1, hto.2, decide_eq_true_eq, and_true]
    constructor
    · exact And.left
    · intro hten
      exact ⟨hten,.inr hten.symm⟩
  rw [thread, List.mem_filter, hmem, decide_eq_true_iff]
  constructor
  · rintro ⟨⟨hc,hs⟩,ht⟩
    exact ⟨hc,(hshows ht).mp hs,ht⟩
  · rintro ⟨hc,hten,ht⟩
    exact ⟨⟨hc,(hshows ht).mpr hten⟩,ht⟩

private theorem queue_apart {where' : TicketWhere} (h : P.Reads m.2 i) {x y : Uuid × Ticket} (hx : x ∈ queue P i p where' m)
    (hy : y ∈ queue P i p where' m) : P.key (P.name x.1) = P.key (P.name y.1) → x.1 = y.1 :=
  h.apart _ _ (.inl ⟨Table.lt_size_of_committed _ _ ((mem_queue h).mp hx).committed,
    Table.lt_size_of_committed _ _ ((mem_queue h).mp hy).committed⟩)

omit [LinearOrder κ] in
private theorem thread_apart {ticketId : Uuid} (h : P.Reads m.2 i)
    (hsees : (m.2.sees i ⟨p.tenantId, p.actor, m.1⟩ ticketId).isSome = true) {x y : Uuid × Entry} (hx : x ∈ thread i p ticketId m)
    (hy : y ∈ thread i p ticketId m) : P.key (P.name x.1) = P.key (P.name y.1) → x.1 = y.1 :=
  h.apart _ _ (.inr ⟨Table.lt_size_of_committed _ _ ((mem_thread h hsees).mp hx).committed,
    Table.lt_size_of_committed _ _ ((mem_thread h hsees).mp hy).committed⟩)

omit [LinearOrder κ] in
private theorem nodup_keys {Row : Type} {rows : List (Uuid × Row)} (h : (rows.map Prod.fst).Nodup)
    (hapart : ∀ x ∈ rows, ∀ y ∈ rows, P.key (P.name x.1) = P.key (P.name y.1) → x.1 = y.1) :
    (rows.map fun x => P.key (P.name x.1)).Nodup := by
  have hmap : ((rows.map Prod.fst).map fun k => P.key (P.name k)).Nodup := by
    refine h.map_on fun k hk k' hk' heq => ?_
    obtain ⟨x,hx,rfl⟩ := List.mem_map.mp hk
    obtain ⟨y,hy,rfl⟩ := List.mem_map.mp hk'
    exact hapart x hx y hy heq
  rwa [List.map_map] at hmap

private theorem serves_queue {where' : TicketWhere} {input : ListTicketsInput}
    (hsort : parseSort input.sort (sortableFieldNames ticketSortable) = .ok sort)
    (hwhere : ticketWhere P.host input.filters = .ok where')
    (hcolumn : where'.gte.all inColumn = true ∧ where'.lte.all inColumn = true) (h : P.Reads m.2 i) :
    Serves P.tickets P.base64 P.host ticketSortable sort Seek.runs input.limit (queue P i p where')
      (P.ticketPage i (n + 1) p input) m where
  page cursor plan hplan haccepts := by
    refine ticketPage_eq hsort hplan hwhere ?_
    simp only [runs, hcolumn.1, hcolumn.2, haccepts, Bool.and_self]
  distinct := by
    exact nodup_keys (Desk.rows_nodup.sublist (List.filter_sublist.map Prod.fst)) fun _ hx _ hy => queue_apart h hx hy

omit [LinearOrder κ] in
private theorem messageRows_nodup {d : Desk ι} {ctx : TenantContext} : ((d.messageRows i ctx).map Prod.fst).Nodup := by
  rw [List.Nodup, List.pairwise_map, Desk.messageRows, List.pairwise_filterMap]
  refine List.nodup_range.imp fun {k k'} hne a ha a' ha' => ?_
  obtain ⟨_,_,rfl⟩ := Option.map_eq_some_iff.mp ha
  obtain ⟨_,_,rfl⟩ := Option.map_eq_some_iff.mp ha'
  exact hne

private theorem serves_thread {ticketId : Uuid} {input : ListThreadInput}
    (hsort : parseSort input.sort (sortableFieldNames threadSortable) = .ok sort) (h : P.Reads m.2 i)
    (hsees : (m.2.sees i ⟨p.tenantId, p.actor, m.1⟩ ticketId).isSome = true) :
    Serves P.messages P.base64 P.host threadSortable sort Seek.runs input.limit (thread i p ticketId)
      (P.messagePage i (n + 1) p ticketId input) m where
  page cursor plan hplan haccepts := messagePage_eq hsort hplan haccepts hsees
  distinct := by
    exact nodup_keys (messageRows_nodup.sublist (List.filter_sublist.map Prod.fst)) fun _ hx _ hy => thread_apart h hsees hx hy

end Pages

/-- What a walk through a list has visited: no row twice at the same date, nor any row twice if none changes its date on the
way; in order, and nothing that was not there. If it has come to the end, it has passed by whatever was in the list at every
request, and at the same date. If the list stays as it is, it comes to the end after as many pages as there are rows at most,
and has visited them all. -/
structure Walked {ι Row : Type} (before : Uuid × Row → Uuid × Row → Prop) (date : Row → Int) (listed : Desk ι → Uuid × Row → Prop)
    (size : Desk ι → ℕ) (moments : List (Moment ι)) (visited : List (Uuid × Row)) (ended : Bool) : Prop where
  ordered : visited.Pairwise before
  once : (visited.map fun x => (x.1, date x.2)).Nodup
  steady : (∀ m ∈ moments, ∀ m' ∈ moments, ∀ k r r', listed m.2 (k, r) → listed m'.2 (k, r') → date r = date r') →
    (visited.map Prod.fst).Nodup
  there : ∀ x ∈ visited, ∃ m ∈ moments, listed m.2 x
  complete : ended = true → ∀ k t, (∀ m ∈ moments, ∃ r, listed m.2 (k, r) ∧ date r = t) → ∃ r, (k, r) ∈ visited ∧ date r = t
  still : ∀ d, (∀ m ∈ moments, m.2 = d) → size d < moments.length → ended = true ∧ ∀ x, x ∈ visited ↔ listed d x

section Walks
variable {κ : Type} [LinearOrder κ] {P : Platform κ} {ι : Type} [DecidableEq ι] {i : ι} {n : ℕ} {p : Principal} {sort : Sorting}
  {moments : List (Moment ι)}

private theorem not_before {Row : Type} {date : Row → Int} {x y : Uuid × Row} (hid : x.1 = y.1) (hdate : date x.2 = date y.2) :
    ¬ P.Before sort date x y := by
  intro h
  unfold Platform.Before at h
  cases hd : sort.direction <;> simp [hd, hid, hdate] at h

private theorem once_of_sorted {Row : Type} {date : Row → Int} {visited : List (Uuid × Row)}
    (h : visited.Pairwise (P.Before sort date)) : (visited.map fun x => (x.1, date x.2)).Nodup := by
  rw [List.Nodup, List.pairwise_map]
  exact h.imp fun hxy heq => not_before (Prod.mk.inj heq).1 (Prod.mk.inj heq).2 hxy

omit [DecidableEq ι] in
private theorem steady_of_sorted {Row : Type} {date : Row → Int} {visited : List (Uuid × Row)}
    {listed : Desk ι → Uuid × Row → Prop} (h : visited.Pairwise (P.Before sort date))
    (hwhere : ∀ x ∈ visited, ∃ m ∈ moments, listed m.2 x)
    (hsteady : ∀ m ∈ moments, ∀ m' ∈ moments, ∀ k r r', listed m.2 (k, r) → listed m'.2 (k, r') → date r = date r') :
    (visited.map Prod.fst).Nodup := by
  rw [List.Nodup, List.pairwise_map]
  refine h.imp_of_mem fun {x y} hx hy hxy hid => ?_
  obtain ⟨m,hm,hlist⟩ := hwhere x hx
  obtain ⟨m',hm',hlist'⟩ := hwhere y hy
  exact not_before hid (hsteady m hm m' hm' x.1 x.2 y.2 hlist (hid ▸ hlist')) hxy

omit [DecidableEq ι] in
private theorem walked_of_serves {Row : Type} {R : Resource (Uuid × Row) κ} {fields : SortableFields} {good : Uuid × Row → Prop}
    (G : Paged R fields sort Seek.runs good) {limit : ℕ} {rows : Moment ι → List (Uuid × Row)}
    {answer : Moment ι → Option Str → Option (Page (Uuid × Row))} {listed : Desk ι → Uuid × Row → Prop} {size : Desk ι → ℕ}
    {date : Row → Int} (hlimit : 1 ≤ limit)
    (hs : ∀ m ∈ moments, Serves R P.base64 P.host fields sort Seek.runs limit rows answer m)
    (hgood : ∀ m ∈ moments, ∀ x ∈ rows m, good x) (hlisted : ∀ m ∈ moments, ∀ x, x ∈ rows m ↔ listed m.2 x)
    (hclock : ∀ m m', m.2 = m'.2 → rows m = rows m') (hsize : ∀ m ∈ moments, (rows m).length ≤ size m.2)
    (hdate : ∀ x, G.date x = date x.2) (hid : ∀ x, R.key (R.id x) = P.key (P.name x.1))
    (hapart : ∀ m ∈ moments, ∀ x ∈ rows m, ∀ y ∈ rows m, P.key (P.name x.1) = P.key (P.name y.1) → x.1 = y.1) :
    ∃ visited ended, follow answer moments none = some (visited, ended) ∧
      Walked (P.Before sort date) date listed size moments visited ended := by
  obtain ⟨visited,ended,hfollow,hordered,hthere,hcomplete⟩ := follow_pages G hlimit hs hgood
  have hbefore (x y : Uuid × Row) (h : G.Before x y) : P.Before sort date x y := by
    unfold Paged.Before at h
    unfold Platform.Before
    simp only [hdate, hid] at h
    exact h
  have hsorted : visited.Pairwise (P.Before sort date) := hordered.imp fun h => hbefore _ _ h
  have hwhere : ∀ x ∈ visited, ∃ m ∈ moments, listed m.2 x := by
    intro x hx
    obtain ⟨m,hm,hmem⟩ := hthere x hx
    exact ⟨m,hm,(hlisted m hm x).mp hmem⟩
  refine ⟨visited,ended,hfollow,hsorted,once_of_sorted hsorted,steady_of_sorted hsorted hwhere,hwhere,?_,?_⟩
  · intro hend k t hstay
    obtain ⟨x,hx,ht,hk⟩ := hcomplete hend t (P.key (P.name k)) fun m hm => by
      obtain ⟨r,hr,hrt⟩ := hstay m hm
      exact ⟨(k, r),(hlisted m hm _).mpr hr,(hdate _).trans hrt,hid _⟩
    obtain ⟨m,hm,hmem⟩ := hthere x hx
    obtain ⟨r,hr,_⟩ := hstay m hm
    -- the identifiers of one moment are apart
    have hsame : x.1 = k := hapart m hm x hmem (k, r) ((hlisted m hm _).mpr hr) ((hid x).symm.trans hk)
    exact ⟨x.2,hsame ▸ hx,(hdate x).symm.trans ht⟩
  · intro d hd hlong
    obtain ⟨m,hm⟩ := List.exists_mem_of_length_pos (Nat.zero_lt_of_lt hlong)
    have hstill : ∀ m' ∈ moments, rows m' = rows m := fun m' hm' => hclock m' m ((hd m' hm').trans (hd m hm).symm)
    have hshort : (rows m).length < moments.length := lt_of_le_of_lt (hsize m hm) (hd m hm ▸ hlong)
    obtain ⟨all,hall,hperm⟩ := follow_still G hlimit hs hstill (hgood m hm) hshort
    cases hfollow.symm.trans hall
    refine ⟨rfl,fun x => ?_⟩
    rw [hperm.mem_iff, hlisted m hm, hd m hm]

private theorem field_of_parseSort {raw : Option Str} {allowed : List Str} (h : parseSort raw allowed = .ok sort) :
    sort.field = units "createdAt" ∨ sort.field ∈ allowed := by
  cases raw with
  | none =>
    cases h
    exact .inl rfl
  | some raw =>
    simp only [parseSort] at h
    split at h
    · rename_i hmem
      cases h
      exact .inr (List.contains_iff_mem.mp hmem)
    · cases h

/-- A client that reads the queue page by page. -/
theorem queue_walked {input : ListTicketsInput} {where' : TicketWhere} (hlimit : 1 ≤ input.limit)
    (hsort : parseSort input.sort (sortableFieldNames ticketSortable) = .ok sort)
    (hwhere : ticketWhere P.host input.filters = .ok where')
    (hcolumn : where'.gte.all inColumn = true ∧ where'.lte.all inColumn = true) (h : ∀ m ∈ moments, P.Reads m.2 i) :
    ∃ visited ended, follow (P.ticketPage i (n + 1) p input) moments none = some (visited, ended) ∧
      Walked (P.Before sort (sortDate sort)) (sortDate sort) (P.InQueue p where') (·.tickets.size) moments visited ended := by
  have hfield : sort.field = units "createdAt" ∨ sort.field = units "updatedAt" := by
    rcases field_of_parseSort hsort with hf | hf
    · exact .inl hf
    · simpa [sortableFieldNames, ticketSortable] using hf
  refine walked_of_serves (ticketsPaged hfield) hlimit (fun m hm => serves_queue hsort hwhere hcolumn (h m hm)) ?_
    (fun m hm x => mem_queue (h m hm)) ?_ ?_ (fun _ => rfl) (fun _ => rfl) ?_
  · intro m hm x hx
    have hc := ((mem_queue (h m hm)).mp hx).committed
    exact ⟨(h m hm).named x.1 (.inl (Table.lt_size_of_committed _ _ hc)),(h m hm).ticket _ _ hc⟩
  · rintro ⟨t,d⟩ ⟨t',d'⟩ rfl
    rfl
  · intro m hm
    refine (List.length_filter_le _ _).trans ((List.length_filterMap_le _ _).trans ?_)
    rw [List.length_range]
  · intro m hm x hx y hy
    exact queue_apart (h m hm) hx hy

/-- A client that reads the Messages of a Ticket page by page, as long as it sees the Ticket. -/
theorem thread_walked {ticketId : Uuid} {input : ListThreadInput} (hlimit : 1 ≤ input.limit)
    (hsort : parseSort input.sort (sortableFieldNames threadSortable) = .ok sort) (h : ∀ m ∈ moments, P.Reads m.2 i)
    (hsees : ∀ m ∈ moments, (m.2.sees i ⟨p.tenantId, p.actor, m.1⟩ ticketId).isSome = true) :
    ∃ visited ended, follow (P.messagePage i (n + 1) p ticketId input) moments none = some (visited, ended) ∧
      Walked (P.Before sort (·.createdAt)) (·.createdAt) (InThread p · ticketId) (·.messages.size) moments visited ended := by
  have hfield : sort.field = units "createdAt" := by
    rcases field_of_parseSort hsort with hf | hf
    · exact hf
    · simpa [sortableFieldNames, threadSortable] using hf
  refine walked_of_serves (messagesPaged hfield) hlimit (fun m hm => serves_thread hsort (h m hm) (hsees m hm)) ?_
    (fun m hm x => mem_thread (h m hm) (hsees m hm)) ?_ ?_ (fun _ => rfl) (fun _ => rfl) ?_
  · intro m hm x hx
    have hc := ((mem_thread (h m hm) (hsees m hm)).mp hx).committed
    exact ⟨(h m hm).named x.1 (.inr (Table.lt_size_of_committed _ _ hc)),(h m hm).message _ _ hc⟩
  · rintro ⟨t,d⟩ ⟨t',d'⟩ rfl
    rfl
  · intro m hm
    refine (List.length_filter_le _ _).trans ((List.length_filterMap_le _ _).trans ?_)
    rw [List.length_range]
  · intro m hm x hx y hy
    exact thread_apart (h m hm) (hsees m hm) hx hy

end Walks

section Example

private def reader : Platform (List ℕ) where
  base64 := forgiving
  host := ⟨id, fun _ => none⟩
  rank := id
  name k := units "00000000-0000-0000-0000-" ++ padded 12 k
  key s := s.map fun c => c.toNat

/-- Two Tickets of one instant, and a thread on the first of them; it has been picked up or not. -/
private def office (priority : TicketPriority) : Desk Unit :=
  { (Desk.empty : Desk Unit) with
    tickets := .ofList [{ Ticket.fresh 1 "No heating" 0 .portal none none 5 with priority }, .fresh 1 "No light" 0 .portal none none 5]
    messages := .ofList [⟨1, 0, "It is cold", .contact 0, 6⟩, ⟨1, 0, "Still cold", .contact 0, 7⟩]
    contacts := .ofList [⟨1, none⟩] }

private theorem reads_office (priority : TicketPriority) : reader.Reads (office priority) () := by
  have hsize (k : Uuid) (hk : k < (office priority).tickets.size ∨ k < (office priority).messages.size) : k = 0 ∨ k = 1 := by
    have h2 : k < 2 := hk.elim id id
    match k with
    | 0 => exact .inl rfl
    | 1 => exact .inr rfl
    | _ + 2 => exact absurd h2 (by simp)
  refine ⟨fun _ => rfl,fun _ => rfl,fun k hk => ?_,fun k k' hk h => ?_,fun k r h => ?_,fun k r h => ?_⟩
  · rcases hsize k hk with rfl | rfl <;> decide +kernel
  · have hk0 := hsize k (hk.imp And.left And.left)
    have hk1 := hsize k' (hk.imp And.right And.right)
    rcases hk0 with rfl | rfl <;> rcases hk1 with rfl | rfl
    · rfl
    · revert h
      decide +kernel
    · revert h
      decide +kernel
    · rfl
  · match k with
    | 0 => cases h; exact ⟨⟨rfl,rfl⟩,rfl,rfl⟩
    | 1 => cases h; exact ⟨⟨rfl,rfl⟩,rfl,rfl⟩
    | _ + 2 => cases h
  · match k with
    | 0 => cases h; exact ⟨rfl,rfl⟩
    | 1 => cases h; exact ⟨rfl,rfl⟩
    | _ + 2 => cases h

private def agent : Principal := ⟨1, .user 7, []⟩

private def morning : List (Moment Unit) := [(8, office .normal), (9, office .high), (10, office .high)]

private theorem desk_of_morning : ∀ m ∈ morning, ∃ priority, m.2 = office priority := by
  simp [morning]

private def all : TicketFilters := ⟨none, none, none, none, none, none, none⟩

theorem queue_walked_of_morning : ∃ visited ended,
    follow (reader.ticketPage () 1 agent ⟨all, 1, none, none⟩) morning none = some (visited, ended) ∧
      Walked (reader.Before defaultSort (sortDate defaultSort)) (sortDate defaultSort)
        (reader.InQueue agent ⟨none, none, none, none, none, none, none⟩) (·.tickets.size) morning visited ended := by
  refine queue_walked (by decide) rfl rfl ⟨rfl,rfl⟩ fun m hm => ?_
  obtain ⟨priority,hm⟩ := desk_of_morning m hm
  exact hm ▸ reads_office priority

theorem thread_walked_of_morning : ∃ visited ended,
    follow (reader.messagePage () 1 agent 0 ⟨1, none, none⟩) morning none = some (visited, ended) ∧
      Walked (reader.Before defaultSort (·.createdAt)) (·.createdAt) (InThread agent · 0) (·.messages.size) morning visited ended := by
  refine thread_walked (by decide) rfl (fun m hm => ?_) (by decide +kernel)
  obtain ⟨priority,hm⟩ := desk_of_morning m hm
  exact hm ▸ reads_office priority

end Example
end Nivara.Tickets
