import Nivara.Realtime.Gateway

/-! What a socket can be handed. Two barriers stand on both paths: a room is entered only by those it
is for, and an event is handed only to those it is for, so that neither a name a client makes up nor
an event in the wrong room gets past them. -/
namespace Nivara.Realtime.Gateway
open Collections Transactions

variable {δ : Type} {s s' : Gateway δ} {id name : String} {principal : RealtimePrincipal} {x : Socket δ}

def Within (id : String) (principal : RealtimePrincipal) (name : String) : Prop :=
  name = id ∨ ∃ room, parseRoom name = some room ∧ room.tenantId = principal.tenantId

def Admitted (s : Gateway δ) (id : String) (principal : RealtimePrincipal) (name : String) : Prop :=
  name = id ∨ (canJoin principal name ≠ .deny ∧ (isStaff principal = false → s.ownsRoom principal name = true))

theorem within_of_canJoin (h : canJoin principal name ≠ .deny) : Within id principal name := .inr (tenant_of_canJoin h)

theorem Admitted.within (h : s.Admitted id principal name) : Within id principal name := by
  rcases h with rfl | ⟨hjoin,_⟩
  · exact .inl rfl
  · exact within_of_canJoin hjoin

structure Cleared (s : Gateway δ) (id : String) (x : Socket δ) : Prop where
  rooms : ∀ name ∈ x.rooms, s.Admitted id x.principal name
  received : ∀ e ∈ x.received, canReceive x.principal e.event = true ∧ Within id x.principal e.room

structure Guarded (s : Gateway δ) : Prop where
  numbered : Numbered s.log s.published
  plain : ∀ id x, s.sockets.get id = some x → ':' ∉ id.toList
  sockets : ∀ id x, s.sockets.get id = some x → s.Cleared id x
  handlers : ∀ n h, s.handlers n = some h → (∃ x, s.sockets.get h.socket = some x ∧ x.principal = h.principal) ∧
    canJoin h.principal h.room ≠ .deny ∧
    (h.stage ≠ .asking → isStaff h.principal = false → s.ownsRoom h.principal h.room = true)
  deliveries : ∀ n e ids, s.deliveries n = some ⟨e, some ids⟩ → ∀ id ∈ ids,
    ∃ x, s.sockets.get id = some x ∧ Within id x.principal e.room

/-- A Ticket that is visible stays so. -/
theorem ownsRoom_mono (h : s.ownsRoom principal name = true) (hmore : ∀ t ∈ s.tickets, t ∈ s'.tickets) :
    s'.ownsRoom principal name = true := by
  unfold ownsRoom at h ⊢
  split at h
  · obtain ⟨t,ht,heq⟩ := List.any_eq_true.mp h
    exact List.any_eq_true.mpr ⟨t,hmore t ht,heq⟩
  · cases h

theorem Admitted.mono (h : s.Admitted id principal name) (hmore : ∀ t ∈ s.tickets, t ∈ s'.tickets) :
    s'.Admitted id principal name := by
  rcases h with rfl | ⟨hjoin,howns⟩
  · exact .inl rfl
  · exact .inr ⟨hjoin,fun hc => ownsRoom_mono (howns hc) hmore⟩

theorem Cleared.mono (h : s.Cleared id x) (hmore : ∀ t ∈ s.tickets, t ∈ s'.tickets) : s'.Cleared id x :=
  ⟨fun name hn => (h.rooms name hn).mono hmore,h.received⟩

/-- New Tickets change nothing for the sockets. -/
theorem guarded_opened (h : s.Guarded) (ticket : TicketOwner) : Guarded { s with tickets := s.tickets ++ [ticket] } where
  numbered := h.numbered
  plain := h.plain
  sockets id x hx := (h.sockets id x hx).mono fun t ht => List.mem_append_left _ ht
  handlers n hd hn := by
    obtain ⟨hsocket,hjoin,howns⟩ := h.handlers n hd hn
    exact ⟨hsocket,hjoin,fun hs hc => ownsRoom_mono (howns hs hc) fun t ht => List.mem_append_left _ ht⟩
  deliveries := h.deliveries

theorem guarded_connected (h : s.Guarded) (hfresh : s.sockets.get id = none) (hplain : ':' ∉ id.toList) :
    Guarded { s with sockets := s.sockets.set id ⟨principal, true, [id], []⟩ } := by
  have hold : ∀ j x, s.sockets.get j = some x → (s.sockets.set id ⟨principal, true, [id], []⟩).get j = some x := by
    intro j x hx
    have hj : j ≠ id := by
      rintro rfl
      rw [hfresh] at hx
      cases hx
    rw [OrderedMap.get_set, if_neg hj, hx]
  refine ⟨h.numbered,fun j x hx => ?_,fun j x hx => ?_,fun n hd hn => ?_,fun n e ids hn j hj => ?_⟩
  · simp only [OrderedMap.get_set] at hx
    split at hx
    · rename_i hj
      rw [hj]
      exact hplain
    · exact h.plain j x hx
  · simp only [OrderedMap.get_set] at hx
    split at hx
    · rename_i hj
      cases hx
      refine ⟨fun name hname => .inl ?_,fun e he => (by cases he)⟩
      rw [hj]
      exact List.mem_singleton.mp hname
    · exact (h.sockets j x hx).mono fun _ ht => ht
  · obtain ⟨⟨x,hx,hp⟩,hrest⟩ := h.handlers n hd hn
    exact ⟨⟨x,hold _ x hx,hp⟩,hrest⟩
  · obtain ⟨x,hx,hin⟩ := h.deliveries n e ids hn j hj
    exact ⟨x,hold j x hx,hin⟩

/-- A socket stays the principal's that it was. -/
theorem principal_update {f : Socket δ → Socket δ} (hf : ∀ x, s.sockets.get id = some x → (f x).principal = x.principal)
    {j : String} {x : Socket δ} (hx : s.sockets.get j = some x) :
    ∃ x', (s.update id f).sockets.get j = some x' ∧ x'.principal = x.principal := by
  rw [get_update]
  split
  · rename_i hj
    rw [hj] at hx
    rw [hx]
    refine ⟨if x.online then f x else x,rfl,?_⟩
    split
    · exact hf x hx
    · rfl
  · exact ⟨x,hx,rfl⟩

/-- A socket is changed that keeps its principal and stays cleared. -/
theorem guarded_update (h : s.Guarded) (f : Socket δ → Socket δ)
    (hf : ∀ x, s.sockets.get id = some x → (f x).principal = x.principal ∧ s.Cleared id (f x)) : (s.update id f).Guarded := by
  have hold : ∀ j x, s.sockets.get j = some x → ∃ x', (s.update id f).sockets.get j = some x' ∧ x'.principal = x.principal :=
    fun _ _ => principal_update fun x hx => (hf x hx).1
  refine ⟨?_,fun j x hx => ?_,fun j x hx => ?_,fun n hd hn => ?_,fun n e ids hn j hj => ?_⟩
  · rw [update_log, update_published]
    exact h.numbered
  · rw [get_update] at hx
    split at hx
    · rename_i hj
      obtain ⟨y,hy,_⟩ := Option.map_eq_some_iff.mp hx
      rw [hj]
      exact h.plain id y hy
    · exact h.plain j x hx
  · refine Cleared.mono (s := s) ?_ fun t ht => by rwa [update_tickets]
    rw [get_update] at hx
    split at hx
    · rename_i hj
      subst hj
      obtain ⟨y,hy,heq⟩ := Option.map_eq_some_iff.mp hx
      split at heq
      · cases heq
        exact (hf y hy).2
      · cases heq
        exact h.sockets _ _ hy
    · exact h.sockets j x hx
  · rw [update_handlers] at hn
    obtain ⟨⟨x,hx,hp⟩,hjoin,howns⟩ := h.handlers n hd hn
    obtain ⟨x',hx',hp'⟩ := hold _ x hx
    refine ⟨⟨x',hx',hp'.trans hp⟩,hjoin,fun hs hc => ?_⟩
    exact ownsRoom_mono (howns hs hc) fun t ht => by rwa [update_tickets]
  · rw [update_deliveries] at hn
    obtain ⟨x,hx,hin⟩ := h.deliveries n e ids hn j hj
    obtain ⟨x',hx',hp'⟩ := hold j x hx
    refine ⟨x',hx',?_⟩
    unfold Within at hin ⊢
    rw [hp']
    exact hin

/-- A handler is put in its place or taken away. -/
theorem guarded_handler (h : s.Guarded) (n : Nat) (handler : Option Handler)
    (hnew : ∀ hd, handler = some hd → (∃ x, s.sockets.get hd.socket = some x ∧ x.principal = hd.principal) ∧
      canJoin hd.principal hd.room ≠ .deny ∧
      (hd.stage ≠ .asking → isStaff hd.principal = false → s.ownsRoom hd.principal hd.room = true)) :
    Guarded { s with handlers := Function.update s.handlers n handler } := by
  refine ⟨h.numbered,h.plain,fun j x hx => (h.sockets j x hx).mono fun _ ht => ht,fun m hd hm => ?_,h.deliveries⟩
  by_cases hmn : m = n
  · subst hmn
    simp only [Function.update_self] at hm
    exact hnew hd hm
  · simp only [Function.update_of_ne hmn] at hm
    exact h.handlers m hd hm

/-- A delivery is put in its place or taken away. -/
theorem guarded_delivery (h : s.Guarded) (n : Nat) (delivery : Option (Delivery δ))
    (hnew : ∀ e ids, delivery = some ⟨e, some ids⟩ → ∀ id ∈ ids,
      ∃ x, s.sockets.get id = some x ∧ Within id x.principal e.room) :
    Guarded { s with deliveries := Function.update s.deliveries n delivery } := by
  refine ⟨h.numbered,h.plain,fun j x hx => (h.sockets j x hx).mono fun _ ht => ht,h.handlers,fun m e ids hm => ?_⟩
  by_cases hmn : m = n
  · subst hmn
    simp only [Function.update_self] at hm
    exact hnew e ids hm
  · simp only [Function.update_of_ne hmn] at hm
    exact h.deliveries m e ids hm

/-- What a replay hands over is of the room, and for the principal. -/
theorem replay_within {room : String} {afterSeq : Nat} {e : Envelope δ} (h : s.Guarded)
    (he : e ∈ (s.log.replay principal room afterSeq).events) : e.room = room ∧ canReceive principal e.event = true := by
  unfold EventLog.replay at he
  split at he
  · cases he
  · rename_i roomLog hroom
    obtain ⟨hmem,hrec⟩ := List.mem_filter.mp he
    obtain ⟨before,hsplit,_⟩ := (h.numbered.window room roomLog hroom).ends
    have hin : e ∈ inRoom room s.published := by
      rw [hsplit]
      exact List.mem_append_right _ hmem
    simp only [Bool.and_eq_true, decide_eq_true_eq] at hrec
    exact ⟨by simpa using (List.mem_filter.mp hin).2,hrec.2⟩

theorem guarded_step {a : GatewayAction δ} (h : s.Guarded) (hs : s.step a = some s') : s'.Guarded := by
  cases took_of_step hs with
  | opened ticket => exact guarded_opened h ticket
  | connected hfresh hplain => exact guarded_connected h hfresh hplain
  | disconnected id =>
    refine guarded_update h _ fun x hx => ⟨rfl,fun _ hn => (by cases hn),(h.sockets id x hx).received⟩
  | idle => exact h
  | subscribed hx hverdict hasks =>
    refine guarded_handler h _ _ fun hd heq => ?_
    cases heq
    refine ⟨⟨_,hx,rfl⟩,hverdict,fun hs hc => ?_⟩
    rw [(ticket_of_canJoin hc hverdict).1] at hasks
    cases hasks hs
  | resolved hn howns =>
    refine guarded_handler h _ _ fun hd heq => ?_
    cases heq
    obtain ⟨hsocket,hjoin,_⟩ := h.handlers _ _ hn
    exact ⟨hsocket,hjoin,fun _ _ => howns⟩
  | refused _ => exact guarded_handler h _ none fun hd heq => (by cases heq)
  | @joined n hd hn hstage =>
    obtain ⟨⟨y,hy,hp⟩,hjoin,howns⟩ := h.handlers _ _ hn
    have hentered : (s.enter hd.socket hd.room).Guarded := by
      refine guarded_update h _ fun x hx => ⟨rfl,fun name hname => ?_,(h.sockets _ x hx).received⟩
      have hnew : name = hd.room → s.Admitted hd.socket x.principal name := by
        rintro rfl
        cases hy.symm.trans hx
        rw [hp]
        exact .inr ⟨hjoin,howns (by rw [hstage]; decide)⟩
      simp only at hname
      split at hname
      · exact (h.sockets _ x hx).rooms name hname
      · rcases List.mem_append.mp hname with hname | hname
        · exact (h.sockets _ x hx).rooms name hname
        · exact hnew (List.mem_singleton.mp hname)
    have hh := hentered.handlers n hd (by rw [enter, update_handlers]; exact hn)
    have hdone := guarded_handler hentered n (some { hd with stage := .joined }) fun hd' heq => by
      cases heq
      exact ⟨hh.1,hh.2.1,fun _ => hh.2.2 (by rw [hstage]; decide)⟩
    rw [enter, update_handlers] at hdone
    exact hdone
  | @replayed n hd hn hstage =>
    obtain ⟨⟨y,hy,hp⟩,hjoin,_⟩ := h.handlers _ _ hn
    have hhanded : (s.hand hd.socket (s.log.replay hd.principal hd.room hd.afterSeq).events).Guarded := by
      refine guarded_update h _ fun x hx => ⟨rfl,(h.sockets _ x hx).rooms,fun e he => ?_⟩
      rcases List.mem_append.mp he with hold | hnew
      · exact (h.sockets _ x hx).received e hold
      · cases hy.symm.trans hx
        obtain ⟨hroom,hrec⟩ := replay_within h hnew
        simp only [hp, hroom]
        exact ⟨hrec,within_of_canJoin hjoin⟩
    have hdone := guarded_handler hhanded n none fun hd' heq => (by cases heq)
    rw [hand, update_handlers] at hdone
    exact hdone
  | left =>
    refine guarded_update h _ fun x hx => ⟨rfl,fun name hname => ?_,(h.sockets _ x hx).received⟩
    exact (h.sockets _ x hx).rooms name (List.mem_filter.mp hname).1
  | @published n call _ =>
    have hlogged : Guarded { s with
        log := (s.log.append call.room call.event call.data call.ts).1
        published := s.published ++ [(s.log.append call.room call.event call.data call.ts).2] } :=
      ⟨numbered_append h.numbered call.room call.event call.data call.ts,h.plain,
        fun j x hx => (h.sockets j x hx).mono fun _ ht => ht,h.handlers,h.deliveries⟩
    exact guarded_delivery hlogged n _ fun e ids heq => (by cases heq)
  | fetched hn =>
    refine guarded_delivery h _ _ fun e ids heq id hid => ?_
    cases heq
    obtain ⟨x,hx,_,hin⟩ := mem_socketsIn.mp hid
    exact ⟨x,hx,((h.sockets id x hx).rooms _ hin).within⟩
  | @failed n e _ =>
    have hgone := guarded_delivery h n none fun e ids heq => (by cases heq)
    exact ⟨hgone.numbered,hgone.plain,fun j x hx => (hgone.sockets j x hx).mono fun _ ht => ht,hgone.handlers,
      hgone.deliveries⟩
  | finished _ => exact guarded_delivery h _ none fun e ids heq => (by cases heq)
  | @emitted n e id rest x hn hx hrec =>
    obtain ⟨y,hy,hin⟩ := h.deliveries n e _ hn id List.mem_cons_self
    have hhanded : (s.hand id [e]).Guarded := by
      refine guarded_update h _ fun z hz => ⟨rfl,(h.sockets _ z hz).rooms,fun e' he => ?_⟩
      rcases List.mem_append.mp he with hold | hnew
      · exact (h.sockets _ z hz).received e' hold
      · rw [List.mem_singleton.mp hnew]
        cases hy.symm.trans hz
        cases hy.symm.trans hx
        exact ⟨hrec,hin⟩
    have hdone := guarded_delivery hhanded n (some ⟨e, some rest⟩) fun e' ids heq id' hid => by
      cases heq
      exact hhanded.deliveries n e _ (by rw [hand, update_deliveries]; exact hn) id' (List.mem_cons_of_mem _ hid)
    rw [hand, update_deliveries] at hdone
    exact hdone
  | @withheld n e id rest hn _ =>
    refine guarded_delivery h n _ fun e' ids heq id' hid => ?_
    cases heq
    exact h.deliveries n e _ hn id' (List.mem_cons_of_mem _ hid)

theorem guarded_initial (options : EventLogOptions) : (initial options : Gateway δ).Guarded where
  numbered := numbered_new options
  plain _ _ hx := by cases hx
  sockets _ _ hx := by cases hx
  handlers _ _ hn := by cases hn
  deliveries _ _ _ hn := by cases hn

/-- The room is that of a Ticket which the principal's Contact sees, and is for Notes or the
dashboard of nobody. -/
def OwnTicketRoom (s : Gateway δ) (principal : RealtimePrincipal) (name : String) : Prop :=
  ∃ ticketId contactId, name = ticketRoom principal.tenantId ticketId ∧
    parseRoom name = some (.ticket principal.tenantId ticketId) ∧ (∀ t, name ≠ agentsRoom t) ∧
    (∀ t k, name ≠ internalRoom t k) ∧ contactOf principal = some contactId ∧
    visibleTo s.tickets principal.tenantId contactId ticketId = true

/-- What the sockets have been handed and the rooms they are in; `joins` is about the instant at which
a room is entered. -/
structure Confidential (s : Gateway δ) : Prop where
  audience : ∀ id x, s.sockets.get id = some x → isStaff x.principal = false → ∀ e ∈ x.received, audienceOf e.event ≠ .staff
  tenant : ∀ id x, s.sockets.get id = some x → ∀ e ∈ x.received, ∀ room, parseRoom e.room = some room →
    room.tenantId = x.principal.tenantId
  named : ∀ id x, s.sockets.get id = some x → ∀ e ∈ x.received, e.room = id ∨ (parseRoom e.room).isSome = true
  rooms : ∀ id x, s.sockets.get id = some x → isStaff x.principal = false → ∀ name ∈ x.rooms, name ≠ id →
    s.OwnTicketRoom x.principal name
  joins : ∀ a s', s.step a = some s' → ∀ id x', s'.sockets.get id = some x' → isStaff x'.principal = false →
    ∀ name ∈ x'.rooms, (∀ x, s.sockets.get id = some x → name ∉ x.rooms) → name ≠ id → s.OwnTicketRoom x'.principal name

theorem ownTicketRoom_of_admitted (h : s.Admitted id principal name) (hstaff : isStaff principal = false) (hne : name ≠ id) :
    s.OwnTicketRoom principal name := by
  rcases h with rfl | ⟨hjoin,howns⟩
  · exact absurd rfl hne
  · obtain ⟨_,ticketId,hparse⟩ := ticket_of_canJoin hstaff hjoin
    obtain ⟨hname,_,huuid⟩ := ticketRoom_of_parse hparse
    have hseen := howns hstaff
    unfold ownsRoom at hseen
    split at hseen
    · rename_i t k c hp hc
      cases hparse.symm.trans hp
      refine ⟨ticketId,c,hname,hparse,fun t => ?_,fun t k => ?_,hc,hseen⟩
      · rw [hname]
        exact ticketRoom_ne_agentsRoom huuid t
      · rw [hname]
        exact ticketRoom_ne_internalRoom huuid t k
    · cases hseen

private theorem parseRoom_of_plain (h : ':' ∉ name.toList) : parseRoom name = none := by
  unfold parseRoom
  split
  · rename_i rest hname
    exact absurd (by simp [hname]) h
  · rfl

private theorem tickets_of_step {a : GatewayAction δ} (hs : s.step a = some s') :
    s'.sockets = s.sockets ∨ s'.tickets = s.tickets := by
  cases took_of_step hs with
  | opened ticket => exact .inl rfl
  | disconnected _ => exact .inr update_tickets
  | left => exact .inr update_tickets
  | joined _ _ => exact .inr update_tickets
  | replayed _ _ => exact .inr update_tickets
  | emitted _ _ _ => exact .inr update_tickets
  | connected _ _ => exact .inr rfl
  | idle => exact .inr rfl
  | subscribed _ _ _ => exact .inr rfl
  | resolved _ _ => exact .inr rfl
  | refused _ => exact .inr rfl
  | published _ => exact .inr rfl
  | fetched _ => exact .inr rfl
  | failed _ => exact .inr rfl
  | finished _ => exact .inr rfl
  | withheld _ _ => exact .inr rfl

private theorem confidential_of_guarded (h : s.Guarded) : s.Confidential := by
  refine ⟨fun id x hx hstaff e he => ?_,fun id x hx e he room hroom => ?_,fun id x hx e he => ?_,
    fun id x hx hstaff name hname hne => ?_,fun a s' hs id x' hx' hstaff name hname hnew hne => ?_⟩
  · have hrec := ((h.sockets id x hx).received e he).1
    simp only [canReceive, hstaff, Bool.or_false, decide_eq_true_eq] at hrec
    rw [hrec]
    decide
  · rcases ((h.sockets id x hx).received e he).2 with hpriv | ⟨room',hroom',hten⟩
    · rw [hpriv, parseRoom_of_plain (h.plain id x hx)] at hroom
      cases hroom
    · cases hroom'.symm.trans hroom
      exact hten
  · rcases ((h.sockets id x hx).received e he).2 with hpriv | ⟨room',hroom',_⟩
    · exact .inl hpriv
    · exact .inr (by rw [hroom']; rfl)
  · exact ownTicketRoom_of_admitted ((h.sockets id x hx).rooms name hname) hstaff hne
  · rcases tickets_of_step hs with hsame | hsame
    · rw [hsame] at hx'
      exact absurd hname (hnew x' hx')
    · have hown := ownTicketRoom_of_admitted (((guarded_step h hs).sockets id x' hx').rooms name hname) hstaff hne
      unfold OwnTicketRoom at hown ⊢
      rwa [hsame] at hown

/-- Whatever is connected, subscribed to and published, nothing reaches a socket that is not for it. -/
theorem confidential_of_run {options : EventLogOptions} {acts : List (GatewayAction δ)}
    (hr : Run step Always (initial options) acts s) : s.Confidential :=
  confidential_of_guarded (hr.invariant (guarded_initial options) fun _ _ _ ht _ hs => guarded_step ht hs)

private def tenant : String := "4d0e7a1c-2b3f-4a5e-8c9d-0f1e2a3b4c5d"

private def ticket : String := "c0ffee00-1111-4222-8333-444455556666"

/-- A Contact in the room of its Ticket, and a Note that goes astray into that room before a Message. -/
private def misrouted : List (GatewayAction Unit) :=
  [.opened ⟨ticket, tenant, "c1"⟩, .connect "s1" (.contact tenant "c1"),
    .subscribe 0 "s1" (.obj [("room", .str (ticketRoom tenant ticket))]), .resolve 0, .join 0, .replay 0,
    .publish 0 ⟨ticketRoom tenant ticket, .noteCreated, (), 1⟩, .publish 1 ⟨ticketRoom tenant ticket, .messageCreated, (), 2⟩,
    .fetchSockets 0, .emit 0, .fetchSockets 1, .emit 1]

theorem confidential_of_misrouted : ∃ (s : Gateway Unit) (x : Socket Unit), s.Confidential ∧ s.sockets.get "s1" = some x ∧
    x.rooms = ["s1", ticketRoom tenant ticket] ∧
    x.received = [⟨.messageCreated, ticketRoom tenant ticket, 2, 2, ()⟩] := by
  have hrun : (exec step Always (initial ⟨none, none⟩) misrouted).any (fun s => (s.sockets.get "s1").any fun x =>
      x.rooms = ["s1", ticketRoom tenant ticket] ∧
        x.received = [⟨.messageCreated, ticketRoom tenant ticket, 2, 2, ()⟩]) = true := by
    decide +kernel
  obtain ⟨s,hs,hany⟩ := exec_any hrun
  obtain ⟨x,hx,hgot⟩ := (Option.any_eq_true _ _).mp hany
  exact ⟨s,x,confidential_of_run hs,hx,of_decide_eq_true hgot⟩

end Nivara.Realtime.Gateway
