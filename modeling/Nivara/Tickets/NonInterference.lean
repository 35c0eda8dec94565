import Nivara.Tickets.Requests
import Nivara.Tickets.SameSight

/-! The calls of one tenant, whatever identifiers they name, beside the rows of the others. No query names a
tenant, so all rests on what the statements see and write. -/
namespace Nivara.Tickets
open Transactions Pagination Text

section Sight
variable {ι : Type} [DecidableEq ι] {i : ι} {ctx : TenantContext} {b : Desk ι} {k : Uuid} {t : Int}

/-- A Ticket that the context can see, and `k` with it. -/
structure InSight (i : ι) (ctx : TenantContext) (b : Desk ι) (k : Uuid) (r : Ticket) : Prop where
  sees : (b.sees i ctx k).isSome = true
  visible : r.visibleTo ctx = true

private theorem yields_findMany {picks : Uuid → Ticket → Bool} : (Tx.findMany picks).Yields (b.Sighted i ctx) fun rows =>
    ∀ p ∈ rows, picks p.1 p.2 = true ∧ InSight i ctx b p.1 p.2 := by
  intro rows h p hp
  obtain ⟨hpick,hs,hto⟩ := h p hp
  exact ⟨hpick,hs,hto⟩

private theorem yields_findFirst {picks : Uuid → Ticket → Bool} : (Tx.findFirst picks).Yields (b.Sighted i ctx) fun row =>
    ∀ p, row = some p → picks p.1 p.2 = true ∧ InSight i ctx b p.1 p.2 := by
  refine yields_findMany.bind fun rows h => ?_
  intro p hp
  exact h p (List.mem_of_mem_head? hp)

private theorem yields_findUnique : (Tx.findUnique k).Yields (b.Sighted i ctx) fun row =>
    ∀ r, row = some r → InSight i ctx b k r := by
  refine yields_findFirst.bind fun row h => ?_
  rintro r hr
  obtain ⟨p,rfl,rfl⟩ := Option.map_eq_some_iff.mp hr
  obtain ⟨hpick,hs⟩ := h p rfl
  rwa [of_decide_eq_true hpick] at hs

private theorem yields_readBack : (readBack k).Yields (b.Sighted i ctx) fun x => InSight i ctx b x.1 x.2 := by
  refine yields_findUnique.bind fun row h => ?_
  cases row with
  | none => trivial
  | some r => exact h r rfl

private theorem yields_findOne : (findOne k).Yields (b.Sighted i ctx) fun x => InSight i ctx b x.1 x.2 := by
  refine yields_findUnique.bind fun row h => ?_
  cases row with
  | none => trivial
  | some r => exact h r rfl

private theorem yields_edited {rows : List (Uuid × Ticket)} {e : Failure} :
    (if rows.isEmpty then .fail e else readBack k : Tx (Uuid × Ticket)).Yields (b.Sighted i ctx) fun x =>
      InSight i ctx b x.1 x.2 := by
  split
  · trivial
  · exact yields_readBack

private theorem yields_transitionIn {permissions : List Permission} {to' : TicketState} :
    (transitionIn permissions k to' t).Yields (b.Sighted i ctx) fun x => InSight i ctx b x.1 x.2 := by
  refine yields_findUnique.bind fun row _ => ?_
  cases row with
  | none => trivial
  | some current =>
    simp only
    split
    · trivial
    · exact (Script.yields_true _).bind fun _ _ => yields_edited

private theorem yields_update {data : Ticket → Ticket} {thrown : SqlState → Failure} :
    (update k data t thrown).Yields (b.Sighted i ctx) fun x => InSight i ctx b x.1 x.2 :=
  (Script.yields_true _).bind fun _ _ => yields_edited

private theorem yields_conversation {rank : Uuid → Nat} : (conversation rank k).Yields (b.Sighted i ctx) fun rows =>
    ∀ p ∈ rows, InSight i ctx b p.1 p.2 := by
  refine yields_findUnique.bind fun row _ => ?_
  cases row with
  | none => trivial
  | some anchor => exact yields_findMany.bind fun rows h => fun p hp => (h p (List.mem_mergeSort.mp hp)).2

private theorem yields_createIn {tenantId : Uuid} {input : CreateTicketInput} :
    (createIn tenantId input t).Yields (b.Sighted i ctx) fun x => InSight i ctx b x.1 x.2 := by
  refine Script.yields_query.bind fun ticket hs => ?_
  exact (Script.yields_true _).bind fun _ _ => ⟨hs.1,hs.2⟩

private theorem yields_postIn {body : String} : (postIn k body t).Yields (b.Sighted i ctx) fun x =>
    (b.sees i ctx x.2.ticketId).isSome = true := by
  refine (Script.yields_true (assertTicketVisible k)).bind fun _ _ => ?_
  refine Script.yields_query.bind fun message hs => ?_
  exact (Script.yields_true _).bind fun _ _ => hs

private theorem yields_targetForLive {r : Ticket} (hr : InSight i ctx b k r) :
    (targetForLive k r t).Yields (b.Sighted i ctx) fun x => InSight i ctx b x.2.1 x.2.2 := by
  unfold targetForLive
  split
  · exact hr
  · exact yields_transitionIn.bind fun _ h => h

private theorem yields_targetFor {principal : ContactPrincipal} {r : Ticket} {source : TicketSource} (hr : InSight i ctx b k r) :
    (targetFor principal k r source t).Yields (b.Sighted i ctx) fun x => InSight i ctx b x.2.1 x.2.2 := by
  unfold targetFor
  split
  · refine yields_findFirst.bind fun row h => ?_
    cases row with
    | some live => exact yields_targetForLive (h live rfl).2
    | none => exact yields_createIn.rethrow.bind fun _ h => h
  · exact yields_targetForLive hr

structure Shows (i : ι) (ctx : TenantContext) (b : Desk ι) (o : Outcome) : Prop where
  tickets : ∀ x ∈ o.ticketsIn, InSight i ctx b x.1 x.2
  messages : ∀ x ∈ o.messagesIn, (b.sees i ctx x.2.ticketId).isSome = true

private theorem shows_ticket {r : Ticket} (h : InSight i ctx b k r) : Shows i ctx b (.ticket k r) := by
  refine ⟨fun x hx => ?_,fun x hx => (by cases hx)⟩
  rw [List.mem_singleton.mp hx]
  exact h

private theorem yields_reply {principal : ContactPrincipal} {body : String} {source : TicketSource} :
    (reply principal k body source t).Yields (b.Sighted i ctx) fun x => Shows i ctx b (.replied x) := by
  refine yields_findUnique.bind fun row h => ?_
  cases row with
  | none => trivial
  | some addressed =>
    refine (yields_targetFor (h addressed rfl)).bind fun target htarget => yields_postIn.bind fun message hmessage => ?_
    refine ⟨fun x hx => ?_,fun x hx => ?_⟩
    · rw [List.mem_singleton.mp hx]
      exact htarget
    · rw [List.mem_singleton.mp hx]
      exact hmessage

section Pages
variable {κ : Type} [LinearOrder κ] {P : Platform κ}

private theorem mem_of_page {Row : Type} {R : Resource Row κ} {plan : KeysetPlan} {rows : List Row} {take limit : ℕ}
    {sort : Sorting} {page : Page Row} (h : buildPage R (Pagination.findMany R plan take rows) limit sort = some page) {x : Row}
    (hx : x ∈ page.data) : x ∈ rows := by
  have hdata : x ∈ Pagination.findMany R plan take rows := by
    unfold buildPage at h
    simp only at h
    split at h
    · cases h
      split at hx
      · exact List.mem_of_mem_take hx
      · exact hx
    · obtain ⟨value,_,rfl⟩ := Option.map_eq_some_iff.mp h
      split at hx
      · exact List.mem_of_mem_take hx
      · exact hx
  have hsorted := List.mem_of_mem_take hdata
  rw [List.mem_insertionSort] at hsorted
  exact (List.mem_filter.mp hsorted).1

private theorem yields_listTickets {input : ListTicketsInput} {tx : Tx (Option (Page (Uuid × Ticket)))}
    (h : listTickets P input = .ok tx) :
    tx.Yields (b.Sighted i ctx) fun page => Shows i ctx b (.ticketPage page) := by
  unfold listTickets at h
  cases hs : parseSort input.sort (sortableFieldNames ticketSortable) with
  | error e =>
    rw [hs] at h
    cases h
  | ok sort =>
    cases hp : keysetPlan P.base64 P.host sort input.cursor ticketSortable with
    | error e =>
      rw [hs] at h
      simp only [Except.mapError, bind, Except.bind, hp] at h
      cases h
    | ok plan =>
      cases hw : ticketWhere P.host input.filters with
      | error e =>
        rw [hs] at h
        simp only [Except.mapError, bind, Except.bind, hp, hw] at h
        cases h
      | ok where' =>
        rw [hs] at h
        simp only [Except.mapError, bind, Except.bind, hp, hw, Except.ok.injEq] at h
        subst h
        refine yields_findMany.bind fun rows hrows => ?_
        refine ⟨fun x hx => ?_,fun x hx => (by cases hx)⟩
        simp only [Outcome.ticketsIn] at hx
        split at hx
        · cases hpage : buildPage P.tickets (Pagination.findMany P.tickets plan (input.limit + 1) rows) input.limit sort with
          | none =>
            rw [hpage] at hx
            cases hx
          | some page =>
            rw [hpage] at hx
            exact (hrows x (mem_of_page hpage hx)).2
        · cases hx

private theorem yields_listForTicket {input : ListThreadInput} {tx : Tx (Option (Page (Uuid × Entry)))}
    (h : listForTicket P k input = .ok tx) :
    tx.Yields (b.Sighted i ctx) fun page => Shows i ctx b (.messagePage page) := by
  unfold listForTicket at h
  cases hs : parseSort input.sort (sortableFieldNames threadSortable) with
  | error e =>
    rw [hs] at h
    cases h
  | ok sort =>
    cases hp : keysetPlan P.base64 P.host sort input.cursor threadSortable with
    | error e =>
      rw [hs] at h
      simp only [Except.mapError, bind, Except.bind, hp] at h
      cases h
    | ok plan =>
      rw [hs] at h
      simp only [Except.mapError, bind, Except.bind, hp, Except.ok.injEq] at h
      subst h
      refine (Script.yields_true (assertTicketVisible k)).bind fun _ _ => Script.yields_query.bind fun rows hrows => ?_
      refine ⟨fun x hx => (by cases hx),fun x hx => ?_⟩
      simp only [Outcome.messagesIn] at hx
      split at hx
      · cases hpage : buildPage P.messages (Pagination.findMany P.messages plan (input.limit + 1) rows) input.limit sort with
        | none =>
          rw [hpage] at hx
          cases hx
        | some page =>
          rw [hpage] at hx
          exact hrows x (mem_of_page hpage hx)
      · cases hx

/-- Every call answers with what is in the sight of its context. -/
private theorem yields_script {call : Invocation} {tx : Tx Outcome} (h : call.script P t = .ok tx) :
    tx.Yields (b.Sighted i ctx) (Shows i ctx b) := by
  cases call with
  | create p input =>
    cases h
    exact yields_createIn.bind fun _ hx => shows_ticket hx
  | findOne p id =>
    cases h
    exact yields_findOne.bind fun _ hx => shows_ticket hx
  | list p input =>
    simp only [Invocation.script] at h
    cases hl : listTickets P input with
    | error e =>
      rw [hl] at h
      cases h
    | ok tx' =>
      rw [hl] at h
      cases h
      exact (yields_listTickets hl).bind fun _ hx => hx
  | transition p id to' =>
    cases h
    exact yields_transitionIn.bind fun _ hx => shows_ticket hx
  | setPriority p id priority =>
    cases h
    exact yields_update.bind fun _ hx => shows_ticket hx
  | setAssignee p id assigneeId =>
    cases h
    exact yields_update.bind fun _ hx => shows_ticket hx
  | conversation p id =>
    cases h
    exact yields_conversation.bind fun _ hx => ⟨hx,fun x hx => (by cases hx)⟩
  | post p ticketId body =>
    cases h
    refine yields_postIn.bind fun message hx => ⟨fun x hx => (by cases hx),fun x hin => ?_⟩
    rw [List.mem_singleton.mp hin]
    exact hx
  | listForTicket p ticketId input =>
    simp only [Invocation.script] at h
    cases hl : Tickets.listForTicket P ticketId input with
    | error e =>
      rw [hl] at h
      cases h
    | ok tx' =>
      rw [hl] at h
      cases h
      exact (yields_listForTicket hl).bind fun _ hx => hx
  | reply p ticketId body source =>
    cases h
    exact yields_reply.bind fun _ hx => hx

end Pages
end Sight

section Calls
variable {ι : Type} [DecidableEq ι] {i : ι} {κ : Type} [LinearOrder κ] {P : Platform κ} {d d' e : Desk ι} {n m : ℕ}
  {a : Asked} {asked : List Asked} {T : Uuid} {answer : Except Thrown Outcome}

omit [DecidableEq ι] in
def Desk.isOf (d : Desk ι) (C k : Uuid) : Bool := (d.tickets.committed k).any (·.contactId = C)

/-- All that a call has shown or changed belongs to Tickets of the Contact. -/
structure OnlyOf (C : Uuid) (d e : Desk ι) (answer : Except Thrown Outcome) : Prop where
  ticketsShown : ∀ o, answer = .ok o → ∀ x ∈ o.ticketsIn, x.2.contactId = C ∧ e.isOf C x.1 = true
  messagesShown : ∀ o, answer = .ok o → ∀ x ∈ o.messagesIn, e.isOf C x.2.ticketId = true
  ticketsChanged : ∀ k, e.tickets.committed k ≠ d.tickets.committed k →
    e.isOf C k = true ∧ (d.tickets.committed k).all (·.contactId = C) = true
  messagesChanged : ∀ k, e.messages.committed k ≠ d.messages.committed k →
    ∃ m, e.messages.committed k = some m ∧ e.isOf C m.ticketId = true

private theorem contactId_of_visibleTo {ctx : TenantContext} {C : Uuid} (hc : ctx.actor = .contact C) {r : Ticket}
    (h : r.visibleTo ctx = true) : r.contactId = C := by
  simp only [Ticket.visibleTo, hc, Actor.reaches, decide_eq_true_eq] at h
  exact h.2

omit [DecidableEq ι] in
private theorem isOf_of_visible {ctx : TenantContext} {C k : Uuid} (hc : ctx.actor = .contact C)
    (h : (e.tickets.committed k).any (·.visibleTo ctx) = true) : e.isOf C k = true := by
  obtain ⟨r,hr,hto⟩ := (Option.any_eq_true _ _).mp h
  simp [Desk.isOf, hr, contactId_of_visibleTo hc hto]

private theorem serve_confined (hd : d.Idle) (h : P.serve i n a d = some (e, answer)) : d.Confined a.context e := by
  unfold Platform.serve at h
  split at h
  · cases h
    exact ⟨hd,fun U _ => .refl _ U,fun _ hne => absurd rfl hne,fun _ hne => absurd rfl hne⟩
  · obtain ⟨x,hx,hxe⟩ := Option.map_eq_some_iff.mp h
    cases hxe
    exact alone_confined hd hx

private theorem serve_alike (hd : d.Idle) (hd' : d'.Idle) (ha : a.invocation.tenantId = T) (hr : d.Alike T d')
    (h : P.serve i n a d = some (e, answer)) : ∃ e', P.serve i n a d' = some (e', answer) ∧ e.Alike T e' := by
  subst ha
  unfold Platform.serve at h ⊢
  split at h
  · cases h
    exact ⟨d',rfl,hr⟩
  · obtain ⟨x,hx,hxe⟩ := Option.map_eq_some_iff.mp h
    cases hxe
    obtain ⟨e',he',hee⟩ := alone_alike hd hd' hr hx
    exact ⟨e',by rw [he']; rfl,hee⟩

private theorem serve_ends (P : Platform κ) (i : ι) (a : Asked) (hd : d.Idle) : ∃ n x, P.serve i n a d = some x := by
  unfold Platform.serve
  split
  · exact ⟨0,_,rfl⟩
  · rename_i tx _
    obtain ⟨n,x,hx⟩ := alone_ends tx i a.context hd
    exact ⟨n,_,by rw [hx]; rfl⟩

private theorem serve_mono {x : Desk ι × Except Thrown Outcome} (h : P.serve i n a d = some x) (hm : n ≤ m) :
    P.serve i m a d = some x := by
  unfold Platform.serve at h ⊢
  split at h
  · exact h
  · obtain ⟨y,hy,rfl⟩ := Option.map_eq_some_iff.mp h
    rw [Script.alone_mono hy hm]
    rfl

private theorem serve_onlyOf {C : Uuid} (hc : a.invocation.actor = .contact C) (hd : d.Idle)
    (h : P.serve i n a d = some (e, answer)) : OnlyOf C d e answer := by
  have hconf := serve_confined hd h
  have hshows : ∀ o, answer = .ok o → ∃ d₁ : Desk ι, e = d₁.commit i ∧ Shows i a.context d₁ o := by
    rintro o rfl
    unfold Platform.serve at h
    split at h
    · cases h
    · rename_i tx htx
      obtain ⟨⟨e₁,r⟩,hx,hxe⟩ := Option.map_eq_some_iff.mp h
      obtain ⟨rfl,hr⟩ := Prod.mk.inj hxe
      cases r with
      | error f => cases hr
      | ok o' =>
        cases hr
        have hcontact : a.context.actor.isContact = true := by
          show a.invocation.actor.isContact = true
          rw [hc]
          rfl
        obtain ⟨d₁,he,hP⟩ := alone_sighted hcontact hd hx
        exact ⟨d₁,he,hP _ (yields_script htx)⟩
  refine ⟨fun o ho x hx => ?_,fun o ho x hx => ?_,fun k hne => ?_,fun k hne => ?_⟩
  · obtain ⟨d₁,rfl,hs⟩ := hshows o ho
    obtain ⟨hsees,hto⟩ := hs.tickets x hx
    exact ⟨contactId_of_visibleTo hc hto,isOf_of_visible hc (Desk.visible_commit hsees)⟩
  · obtain ⟨d₁,rfl,hs⟩ := hshows o ho
    exact isOf_of_visible hc (Desk.visible_commit (hs.messages x hx))
  · obtain ⟨hnew,hold⟩ := hconf.tickets k hne
    refine ⟨isOf_of_visible hc hnew,?_⟩
    cases hk : d.tickets.committed k with
    | none => rfl
    | some r =>
      rw [hk] at hold
      exact decide_eq_true (contactId_of_visibleTo hc hold)
  · obtain ⟨m,hm,hvis⟩ := hconf.messages k hne
    exact ⟨m,hm,isOf_of_visible hc hvis⟩

/-- What `asked` leaves of `d`: the rows of the other tenants as they were, and a Contact that asks for
something has been shown and has changed only what is its own. -/
structure Apart (P : Platform κ) (i : ι) (n : ℕ) (T : Uuid) (asked : List Asked) (d e : Desk ι) : Prop where
  others : ∀ U, U ≠ T → d.AgreeOn U e
  contacts : ∀ before a after C, asked = before ++ a :: after → a.invocation.actor = .contact C →
    ∃ d₁ answers d₂ answer, P.serveAll i n before d = some (d₁, answers) ∧ P.serve i n a d₁ = some (d₂, answer) ∧
      OnlyOf C d₁ d₂ answer

private theorem serveAll_cons {answers : List (Except Thrown Outcome)} (h : P.serveAll i n (a :: asked) d = some (e, answers)) :
    ∃ d₁ first rest, P.serve i n a d = some (d₁, first) ∧ P.serveAll i n asked d₁ = some (e, rest) ∧ answers = first :: rest := by
  simp only [Platform.serveAll] at h
  split at h
  · cases h
  · rename_i d₁ first hs
    obtain ⟨⟨e₁,rest⟩,hr,hre⟩ := Option.map_eq_some_iff.mp h
    cases hre
    exact ⟨d₁,first,rest,hs,hr,rfl⟩

private theorem serveAll_of_cons {d₁ : Desk ι} {first : Except Thrown Outcome} {rest : List (Except Thrown Outcome)}
    (hs : P.serve i n a d = some (d₁, first)) (hr : P.serveAll i n asked d₁ = some (e, rest)) :
    P.serveAll i n (a :: asked) d = some (e, first :: rest) := by
  simp only [Platform.serveAll, hs, hr, Option.map_some]

private theorem serveAll_mono {x : Desk ι × List (Except Thrown Outcome)} (h : P.serveAll i n asked d = some x) (hm : n ≤ m) :
    P.serveAll i m asked d = some x := by
  induction asked generalizing d x with
  | nil => exact h
  | cons a rest ih =>
    obtain ⟨e,answers⟩ := x
    obtain ⟨d₁,first,others,hs,hr,rfl⟩ := serveAll_cons h
    exact serveAll_of_cons (serve_mono hs hm) (ih hr)

private theorem serveAll_ends (P : Platform κ) (i : ι) (asked : List Asked) (hd : d.Idle) :
    ∃ n x, P.serveAll i n asked d = some x := by
  induction asked generalizing d with
  | nil => exact ⟨0,_,rfl⟩
  | cons a rest ih =>
    obtain ⟨n,⟨d₁,first⟩,hs⟩ := serve_ends P i a hd
    obtain ⟨m,⟨e,others⟩,hr⟩ := ih (serve_confined hd hs).idle
    exact ⟨max n m,_,serveAll_of_cons (serve_mono hs (Nat.le_max_left ..)) (serveAll_mono hr (Nat.le_max_right ..))⟩

private theorem serveAll_alike {answers : List (Except Thrown Outcome)} (hT : ∀ a ∈ asked, a.invocation.tenantId = T)
    (hd : d.Idle) (hd' : d'.Idle) (hr : d.Alike T d') (h : P.serveAll i n asked d = some (e, answers)) :
    ∃ e', P.serveAll i n asked d' = some (e', answers) ∧ e.Alike T e' := by
  induction asked generalizing d d' answers with
  | nil =>
    cases h
    exact ⟨d',rfl,hr⟩
  | cons a rest ih =>
    obtain ⟨d₁,first,others,hs,hrest,rfl⟩ := serveAll_cons h
    obtain ⟨d₁',hs',hr₁⟩ := serve_alike hd hd' (hT a (by simp)) hr hs
    obtain ⟨e',he',hee⟩ := ih (fun b hb => hT b (.tail _ hb)) (serve_confined hd hs).idle (serve_confined hd' hs').idle hr₁ hrest
    exact ⟨e',serveAll_of_cons hs' he',hee⟩

private theorem apart_of_serveAll {answers : List (Except Thrown Outcome)} (hT : ∀ a ∈ asked, a.invocation.tenantId = T)
    (hd : d.Idle) (h : P.serveAll i n asked d = some (e, answers)) : Apart P i n T asked d e := by
  induction asked generalizing d answers with
  | nil =>
    cases h
    exact ⟨fun U _ => .refl _ U,fun before a after C hsplit => (by simp at hsplit)⟩
  | cons a rest ih =>
    obtain ⟨d₁,first,others,hs,hrest,rfl⟩ := serveAll_cons h
    have hconf := serve_confined hd hs
    have hlater := ih (fun b hb => hT b (.tail _ hb)) hconf.idle hrest
    refine ⟨fun U hU => (hconf.others U ?_).trans (hlater.others U hU),fun before c after C hsplit hc => ?_⟩
    · rw [← hT a (by simp)] at hU
      exact hU
    · cases before with
      | nil =>
        obtain ⟨rfl,rfl⟩ := List.cons.inj hsplit
        exact ⟨d,[],d₁,first,rfl,hs,serve_onlyOf hc hd hs⟩
      | cons b before =>
        obtain ⟨rfl,rfl⟩ := List.cons.inj hsplit
        obtain ⟨d₂,answers,d₃,answer,hb,hc',honly⟩ := hlater.contacts before c after C rfl hc
        exact ⟨d₂,_,d₃,answer,serveAll_of_cons hs hb,hc',honly⟩

/-- Whatever the principals of a tenant ask for, whichever identifiers they name, and whatever the other
tenants have: the answers are the same, and so is what the tenant has at the end; nobody else's rows are
touched, and a Contact meets nothing but what is on its own Tickets. -/
theorem tenants_apart (P : Platform κ) (i : ι) (hT : ∀ a ∈ asked, a.invocation.tenantId = T) (hd : d.Idle) (hd' : d'.Idle)
    (h : d.AgreeOn T d') (hs : d.SameSupply d') :
    ∃ n₀ e e' answers, e.AgreeOn T e' ∧ ∀ n, n₀ ≤ n → P.serveAll i n asked d = some (e, answers) ∧
      P.serveAll i n asked d' = some (e', answers) ∧ Apart P i n T asked d e ∧ Apart P i n T asked d' e' := by
  obtain ⟨n₀,⟨e,answers⟩,hrun⟩ := serveAll_ends P i asked hd
  obtain ⟨e',hrun',hee⟩ := serveAll_alike hT hd hd' (hd.alike hd' h hs) hrun
  refine ⟨n₀,e,e',answers,hee.agreeOn,fun n hn => ?_⟩
  have hrun := serveAll_mono hrun hn
  have hrun' := serveAll_mono hrun' hn
  exact ⟨hrun,hrun',apart_of_serveAll hT hd hrun,apart_of_serveAll hT hd' hrun'⟩

/-- One call, the database that it found, and what became of both. -/
structure Turn (ι : Type) where
  asked : Asked
  found : Desk ι
  left : Desk ι
  answer : Except Thrown Outcome

/-- The calls of a tenant one after another; before each of them and after the last the others have done what they
like with the rows that are not the tenant's. -/
inductive Life (P : Platform κ) (i : ι) (T : Uuid) : Desk ι → List (Turn ι) → Desk ι → Prop where
  | rest {d e : Desk ι} (others : d.AgreeOn T e) : Life P i T d [] e
  | turn {d e : Desk ι} {n : ℕ} {x : Turn ι} {turns : List (Turn ι)} (others : d.AgreeOn T x.found) (idle : x.found.Idle)
      (serves : P.serve i n x.asked x.found = some (x.left, x.answer)) (later : Life P i T x.left turns e) :
      Life P i T d (x :: turns) e

structure Turn.Keeps (T : Uuid) (x : Turn ι) : Prop where
  others : ∀ U, U ≠ T → x.found.AgreeOn U x.left
  contact : ∀ C, x.asked.invocation.actor = .contact C → OnlyOf C x.found x.left x.answer

private theorem keeps_of_life {turns : List (Turn ι)} (h : Life P i T d turns e) (hT : ∀ x ∈ turns, x.asked.invocation.tenantId = T) :
    ∀ x ∈ turns, x.Keeps T := by
  induction h with
  | rest others => simp
  | turn others idle serves later ih =>
    obtain ⟨hx,hrest⟩ := List.forall_mem_cons.mp hT
    refine List.forall_mem_cons.mpr ⟨⟨fun U hU => ?_,fun C hC => serve_onlyOf hC idle serves⟩,ih hrest⟩
    exact (serve_confined idle serves).others U (by rwa [← hx] at hU)

/-- The same call, on the same rows of its tenant and with the same identifiers to come. -/
private theorem serve_same {x x' : Turn ι} {n' : ℕ} (hx : x.asked.invocation.tenantId = T) (hasked : x.asked = x'.asked)
    (hsupply : x.found.SameSupply x'.found) (hfound : x.found.AgreeOn T x'.found) (hi : x.found.Idle) (hi' : x'.found.Idle)
    (h : P.serve i n x.asked x.found = some (x.left, x.answer)) (h' : P.serve i n' x'.asked x'.found = some (x'.left, x'.answer)) :
    x.answer = x'.answer ∧ x.left.AgreeOn T x'.left := by
  obtain ⟨left,hleft,hagree⟩ := serve_alike hi hi' hx (hi.alike hi' hfound hsupply) h
  have hboth : some (left, x.answer) = some (x'.left, x'.answer) := by
    rw [← serve_mono hleft (Nat.le_max_left n n'), hasked]
    exact serve_mono h' (Nat.le_max_right n n')
  obtain ⟨rfl,hanswer⟩ := Prod.mk.inj (Option.some.inj hboth)
  exact ⟨hanswer,hagree.agreeOn⟩

private theorem same_of_lives {turns turns' : List (Turn ι)} {e' : Desk ι} (hT : ∀ x ∈ turns, x.asked.invocation.tenantId = T)
    (h : Life P i T d turns e) (h' : Life P i T d' turns' e') (hd : d.AgreeOn T d')
    (hsame : List.Forall₂ (fun x x' => x.asked = x'.asked ∧ x.found.SameSupply x'.found) turns turns') :
    turns.map (·.answer) = turns'.map (·.answer) ∧ e.AgreeOn T e' := by
  induction h generalizing d' turns' with
  | rest others =>
    cases hsame
    cases h' with
    | rest others' => exact ⟨rfl,others.symm.trans (hd.trans others')⟩
  | turn others idle serves later ih =>
    obtain ⟨hx,hrest⟩ := List.forall_mem_cons.mp hT
    cases hsame with
    | cons hhead htail =>
      cases h' with
      | turn others' idle' serves' later' =>
        obtain ⟨hanswer,hleft⟩ :=
          serve_same hx hhead.1 hhead.2 (others.symm.trans (hd.trans others')) idle idle' serves serves'
        obtain ⟨hanswers,he⟩ := ih hrest later' hleft htail
        exact ⟨by rw [List.map_cons, List.map_cons, hanswer, hanswers],he⟩

/-- The principals of a tenant fare the same whatever goes on beside them: every call is answered, two lives with the
same calls, on the same rows of the tenant and with the same identifiers to come, give the same answers and the same
rows, and each call keeps off the rows of everybody else. -/
theorem tenants_apart_beside {turns turns' : List (Turn ι)} {e' : Desk ι} (hT : ∀ x ∈ turns, x.asked.invocation.tenantId = T)
    (h : Life P i T d turns e) (h' : Life P i T d' turns' e') (hd : d.AgreeOn T d')
    (hsame : List.Forall₂ (fun x x' => x.asked = x'.asked ∧ x.found.SameSupply x'.found) turns turns') :
    (∀ (a : Asked) (b : Desk ι), b.Idle → ∃ n b' answer, P.serve i n a b = some (b', answer) ∧ b'.Idle) ∧
    turns.map (·.answer) = turns'.map (·.answer) ∧ e.AgreeOn T e' ∧
    (∀ x ∈ turns, x.Keeps T) ∧ ∀ x ∈ turns', x.Keeps T := by
  have hT' : ∀ x' ∈ turns', x'.asked.invocation.tenantId = T := by
    intro x' hx'
    obtain ⟨k,hk,rfl⟩ := List.getElem_of_mem hx'
    have hlt : k < turns.length := hsame.length_eq ▸ hk
    have hasked : turns[k].asked = turns'[k].asked := ((List.forall₂_iff_get.mp hsame).2 k hlt hk).1
    rw [← hasked]
    exact hT _ (List.getElem_mem hlt)
  obtain ⟨hanswers,he⟩ := same_of_lives hT h h' hd hsame
  refine ⟨fun a b hb => ?_,hanswers,he,keeps_of_life h hT,keeps_of_life h' hT'⟩
  obtain ⟨n,⟨b',answer⟩,hserve⟩ := serve_ends P i a hb
  exact ⟨n,b',answer,hserve,(serve_confined hb hserve).idle⟩

end Calls

section Example

private def house (subject : String) : Desk Unit :=
  { (Desk.empty : Desk Unit) with
    users := [(1, 7)]
    tickets := .ofList [.fresh 1 "No heating" 0 .portal none none 0, .fresh 2 subject 1 .portal none none 0]
    contacts := .ofList [⟨1, none⟩, ⟨2, none⟩] }

private theorem house_idle (subject : String) : (house subject).Idle :=
  ⟨fun _ => rfl,fun _ => rfl,fun _ => rfl,fun _ => rfl,fun _ => rfl,fun _ => rfl,fun _ => rfl,fun _ _ h => (by cases h)⟩

private theorem house_agreeOn (s s' : String) : (house s).AgreeOn 1 (house s') := by
  refine ⟨fun _ => rfl,fun k => ?_,fun _ => rfl,fun _ => rfl,fun _ => rfl,fun _ => rfl,fun _ => rfl,fun _ => rfl⟩
  match k with
  | 0 => rfl
  | 1 => rfl
  | _ + 2 => rfl

/-- An agent names the Ticket of the other tenant; a Contact replies on its own, and looks for the other. -/
private def someCalls : List Asked :=
  [⟨.transition ⟨1, .user 7, [.ticketTransition]⟩ 1 .pending, 5, 5⟩, ⟨.reply ⟨1, 0⟩ 0 "Still cold" .portal, 6, 6⟩,
    ⟨.findOne ⟨1, .contact 0, []⟩ 1, 7, 7⟩]

private def platform : Platform ℕ := ⟨forgiving, ⟨id, fun _ => none⟩, id, fun _ => [], List.length⟩

theorem tenants_apart_of_houses : ∃ n₀ e e' answers, Desk.AgreeOn 1 e e' ∧ ∀ n, n₀ ≤ n →
    platform.serveAll () n someCalls (house "No light") = some (e, answers) ∧
    platform.serveAll () n someCalls (house "No water") = some (e', answers) ∧
    Apart platform () n 1 someCalls (house "No light") e ∧ Apart platform () n 1 someCalls (house "No water") e' :=
  tenants_apart platform () (by decide) (house_idle _) (house_idle _) (house_agreeOn _ _) ⟨rfl,rfl,rfl,rfl,rfl,rfl,rfl⟩

private def turnAt (a : Asked) (s : String) (h : (platform.serve () 40 a (house s)).isSome = true) : Turn Unit :=
  ⟨a,house s,((platform.serve () 40 a (house s)).get h).1,((platform.serve () 40 a (house s)).get h).2⟩

private theorem serves_turnAt {a : Asked} {s : String} (h : (platform.serve () 40 a (house s)).isSome = true) :
    platform.serve () 40 a (house s) = some ((turnAt a s h).left, (turnAt a s h).answer) :=
  (Option.some_get h).symm

private def looks (s : String) : Turn Unit := turnAt ⟨.findOne ⟨1, .contact 0, []⟩ 1, 5, 5⟩ s rfl

private def replies (s : String) : Turn Unit := turnAt ⟨.reply ⟨1, 0⟩ 0 "Still cold" .portal, 6, 6⟩ s rfl

private theorem looks_left (s s' : String) : (looks s).left.AgreeOn 1 (house s') := by
  refine ⟨fun _ => rfl,fun k => ?_,fun _ => rfl,fun _ => rfl,fun _ => rfl,fun _ => rfl,fun _ => rfl,fun _ => rfl⟩
  match k with
  | 0 => rfl
  | 1 => rfl
  | _ + 2 => rfl

private theorem life_of_house (s s' : String) :
    Life platform () 1 (house s) [looks s, replies s'] (replies s').left :=
  .turn (.refl _ 1) (house_idle s) (serves_turnAt _)
    (.turn (looks_left s s') (house_idle s') (serves_turnAt _) (.rest (.refl _ 1)))

/-- In one life the other tenant edits its Ticket between the calls, in the other it does not. -/
theorem tenants_apart_beside_of_edit :
    [looks "No light", replies "No water"].map (·.answer) = [looks "No gas", replies "No gas"].map (·.answer) ∧
    (replies "No water").left.AgreeOn 1 (replies "No gas").left ∧ (∀ x ∈ [looks "No light", replies "No water"], x.Keeps 1) ∧
    ∀ x ∈ [looks "No gas", replies "No gas"], x.Keeps 1 := by
  have hT : ∀ x ∈ [looks "No light", replies "No water"], x.asked.invocation.tenantId = 1 := by
    intro x hx
    rcases List.mem_pair.mp hx with rfl | rfl
    · rfl
    · rfl
  have hsame : List.Forall₂ (fun x x' => x.asked = x'.asked ∧ x.found.SameSupply x'.found)
      [looks "No light", replies "No water"] [looks "No gas", replies "No gas"] :=
    .cons ⟨rfl,⟨rfl,rfl,rfl,rfl,rfl,rfl,rfl⟩⟩ (.cons ⟨rfl,⟨rfl,rfl,rfl,rfl,rfl,rfl,rfl⟩⟩ .nil)
  exact (tenants_apart_beside hT (life_of_house "No light" "No water") (life_of_house "No gas" "No gas")
    (house_agreeOn _ _) hsame).2

end Example
end Nivara.Tickets
