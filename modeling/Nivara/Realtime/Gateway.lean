import Nivara.Realtime.Numbering
import Nivara.Realtime.Rooms
import Nivara.Transactions.Run

/-! The socket surface, from `realtime/realtime.gateway.ts` and `realtime/realtime.service.ts`. A
subscribe and a publish are each taken in the steps between which others may run: the ownership
read, the join and the replay; the append, the snapshot of the room's sockets and the emits. -/
namespace Nivara.Realtime
open Collections Transactions

/-- A row of `ticket` as the policy on the contact axis reads it. -/
structure TicketOwner where
  id : String
  tenantId : String
  contactId : String
  deriving DecidableEq, Repr

def sameUuid (a b : String) : Bool := a.toList.map Char.toLower = b.toList.map Char.toLower

/-- `tenant_isolation ON ticket` for a Contact that looks a Ticket up. -/
def visibleTo (tickets : List TicketOwner) (tenantId contactId ticketId : String) : Bool :=
  tickets.any fun t => sameUuid t.id ticketId && t.tenantId = tenantId && t.contactId = contactId

/-- The Contact a customer reads as: its own, or with `existingContactPrincipal` the widget's. -/
def contactOf : RealtimePrincipal → Option String
  | .user _ _ => none
  | .contact _ contactId => some contactId
  | .widget _ _ contactId => contactId

/-- The principal is fixed at connect. `received` has the envelopes that were emitted to the socket. -/
structure Socket (δ : Type) where
  principal : RealtimePrincipal
  online : Bool
  rooms : List String
  received : List (Envelope δ)

/-- Where a subscribe stands: at the ownership read, before the join, or before the replay. -/
inductive Stage where
  | asking | allowed | joined
  deriving DecidableEq, Repr

structure Handler where
  socket : String
  principal : RealtimePrincipal
  room : String
  afterSeq : Nat
  stage : Stage
  deriving DecidableEq, Repr

/-- A `deliver` under way; `sockets` are those it has still to emit to, once it has fetched them. -/
structure Delivery (δ : Type) where
  envelope : Envelope δ
  sockets : Option (List String)

/-- No writer deletes a Ticket or gives it to another Contact, so there only come more of them.
`published` has all envelopes of the process, `undelivered` those whose sockets could not be fetched. -/
structure Gateway (δ : Type) where
  tickets : List TicketOwner
  log : EventLog δ
  sockets : OrderedMap String (Socket δ)
  handlers : Nat → Option Handler
  deliveries : Nat → Option (Delivery δ)
  published : List (Envelope δ)
  undelivered : List (Envelope δ)

inductive GatewayAction (δ : Type) where
  | opened (ticket : TicketOwner)
  | connect (id : String) (principal : RealtimePrincipal)
  | disconnect (id : String)
  | subscribe (n : Nat) (id : String) (body : Body)
  | resolve (n : Nat)
  | join (n : Nat)
  | replay (n : Nat)
  | unsubscribe (id : String) (body : Body)
  | publish (n : Nat) (call : Call δ)
  | fetchSockets (n : Nat)
  | fetchFailed (n : Nat)
  | emit (n : Nat)

namespace Gateway
variable {δ : Type}

def initial (options : EventLogOptions) : Gateway δ := ⟨[], .new options, .empty, fun _ => none, fun _ => none, [], []⟩

/-- A socket that has disconnected cannot join, and what is emitted to it is lost. -/
def update (s : Gateway δ) (id : String) (f : Socket δ → Socket δ) : Gateway δ :=
  match s.sockets.get id with
  | none => s
  | some x => if x.online then { s with sockets := s.sockets.set id (f x) } else s

def enter (s : Gateway δ) (id room : String) : Gateway δ :=
  s.update id fun x => { x with rooms := if room ∈ x.rooms then x.rooms else x.rooms ++ [room] }

def hand (s : Gateway δ) (id : String) (events : List (Envelope δ)) : Gateway δ :=
  s.update id fun x => { x with received := x.received ++ events }

/-- The read that answers `requires-requester-match`. -/
def ownsRoom (s : Gateway δ) (principal : RealtimePrincipal) (roomName : String) : Bool :=
  match parseRoom roomName, contactOf principal with
  | some (.ticket _ ticketId), some contactId => visibleTo s.tickets principal.tenantId contactId ticketId
  | _, _ => false

/-- `namespace.in(room).fetchSockets()`. -/
def socketsIn (s : Gateway δ) (room : String) : List String :=
  (s.sockets.entries.filter fun p => p.2.online && decide (room ∈ p.2.rooms)).map Prod.fst

def begin (s : Gateway δ) (n : Nat) (id : String) (x : Socket δ) (request : SubscribeRequest) : Gateway δ :=
  match canJoin x.principal request.room with
  | .deny => s
  | .allow =>
    { s with handlers := Function.update s.handlers n (some ⟨id, x.principal, request.room, request.afterSeq, .allowed⟩) }
  | .requiresRequesterMatch =>
    { s with handlers := Function.update s.handlers n (some ⟨id, x.principal, request.room, request.afterSeq, .asking⟩) }

/-- The next part of a subscribe. The identifiers that the socket server makes up have no colon; each
socket starts in the room of its own. -/
def step (s : Gateway δ) : GatewayAction δ → Option (Gateway δ)
  | .opened ticket => some { s with tickets := s.tickets ++ [ticket] }
  | .connect id principal =>
    if s.sockets.get id = none ∧ ':' ∉ id.toList then some { s with sockets := s.sockets.set id ⟨principal, true, [id], []⟩ }
    else none
  | .disconnect id => some (s.update id fun x => { x with online := false, rooms := [] })
  | .subscribe n id body =>
    match s.sockets.get id, s.handlers n with
    | some x, none =>
      match parseSubscribe body with
      | none => some s
      | some request => some (s.begin n id x request)
    | _, _ => none
  | .resolve n =>
    match s.handlers n with
    | some ⟨id, principal, room, afterSeq, .asking⟩ =>
      if s.ownsRoom principal room then
        some { s with handlers := Function.update s.handlers n (some ⟨id, principal, room, afterSeq, .allowed⟩) }
      else some { s with handlers := Function.update s.handlers n none }
    | _ => none
  | .join n =>
    match s.handlers n with
    | some ⟨id, principal, room, afterSeq, .allowed⟩ =>
      some { s.enter id room with
        handlers := Function.update s.handlers n (some ⟨id, principal, room, afterSeq, .joined⟩) }
    | _ => none
  | .replay n =>
    match s.handlers n with
    | some ⟨id, principal, room, afterSeq, .joined⟩ =>
      some { s.hand id (s.log.replay principal room afterSeq).events with handlers := Function.update s.handlers n none }
    | _ => none
  | .unsubscribe id body =>
    match parseRoomName body with
    | none => some s
    | some room => some (s.update id fun x => { x with rooms := x.rooms.filter (· ≠ room) })
  | .publish n call =>
    match s.deliveries n with
    | some _ => none
    | none =>
      let (log, envelope) := s.log.append call.room call.event call.data call.ts
      some { s with
        log := log
        deliveries := Function.update s.deliveries n (some ⟨envelope, none⟩)
        published := s.published ++ [envelope] }
  | .fetchSockets n =>
    match s.deliveries n with
    | some ⟨envelope, none⟩ =>
      some { s with deliveries := Function.update s.deliveries n (some ⟨envelope, some (s.socketsIn envelope.room)⟩) }
    | _ => none
  | .fetchFailed n =>
    match s.deliveries n with
    | some ⟨envelope, none⟩ =>
      some { s with deliveries := Function.update s.deliveries n none, undelivered := s.undelivered ++ [envelope] }
    | _ => none
  | .emit n =>
    match s.deliveries n with
    | some ⟨_, some []⟩ => some { s with deliveries := Function.update s.deliveries n none }
    | some ⟨envelope, some (id :: rest)⟩ =>
      let s' := if (s.sockets.get id).any (canReceive ·.principal envelope.event) then s.hand id [envelope] else s
      some { s' with deliveries := Function.update s.deliveries n (some ⟨envelope, some rest⟩) }
    | _ => none

section Update
variable {s : Gateway δ} {id : String} {f : Socket δ → Socket δ}

theorem get_update (j : String) : (s.update id f).sockets.get j =
    if j = id then (s.sockets.get id).map fun x => if x.online then f x else x else s.sockets.get j := by
  cases h : s.sockets.get id with
  | none =>
    simp only [update, h]
    by_cases hj : j = id
    · simp [hj, h]
    · simp [hj]
  | some x =>
    cases ho : x.online with
    | true => simp [update, h, OrderedMap.get_set, ho]
    | false =>
      simp only [update, h, ho]
      by_cases hj : j = id
      · simp [hj, h, ho]
      · simp [hj]

/-- An update is of the sockets alone. -/
theorem update_eq (s : Gateway δ) (id : String) (f : Socket δ → Socket δ) :
    ∃ sockets, s.update id f = { s with sockets := sockets } := by
  unfold update
  split
  · exact ⟨s.sockets,rfl⟩
  · split
    · exact ⟨_,rfl⟩
    · exact ⟨s.sockets,rfl⟩

@[simp] theorem update_tickets : (s.update id f).tickets = s.tickets := by
  obtain ⟨_,h⟩ := update_eq s id f
  rw [h]

@[simp] theorem update_log : (s.update id f).log = s.log := by
  obtain ⟨_,h⟩ := update_eq s id f
  rw [h]

@[simp] theorem update_handlers : (s.update id f).handlers = s.handlers := by
  obtain ⟨_,h⟩ := update_eq s id f
  rw [h]

@[simp] theorem update_deliveries : (s.update id f).deliveries = s.deliveries := by
  obtain ⟨_,h⟩ := update_eq s id f
  rw [h]

@[simp] theorem update_published : (s.update id f).published = s.published := by
  obtain ⟨_,h⟩ := update_eq s id f
  rw [h]

@[simp] theorem update_undelivered : (s.update id f).undelivered = s.undelivered := by
  obtain ⟨_,h⟩ := update_eq s id f
  rw [h]

end Update

theorem mem_socketsIn {s : Gateway δ} {id room : String} :
    id ∈ s.socketsIn room ↔ ∃ x, s.sockets.get id = some x ∧ x.online = true ∧ room ∈ x.rooms := by
  simp only [socketsIn, List.mem_map, List.mem_filter, Bool.and_eq_true, decide_eq_true_eq]
  constructor
  · rintro ⟨⟨_,x⟩,⟨hmem,hin⟩,rfl⟩
    exact ⟨x,OrderedMap.mem_entries.mp hmem,hin⟩
  · rintro ⟨x,hx,hin⟩
    exact ⟨(id, x),⟨OrderedMap.mem_entries.mpr hx,hin⟩,rfl⟩

inductive Took (s : Gateway δ) : GatewayAction δ → Gateway δ → Prop
  | opened (ticket : TicketOwner) : Took s (.opened ticket) { s with tickets := s.tickets ++ [ticket] }
  | connected {id : String} {principal : RealtimePrincipal} (fresh : s.sockets.get id = none) (plain : ':' ∉ id.toList) :
      Took s (.connect id principal) { s with sockets := s.sockets.set id ⟨principal, true, [id], []⟩ }
  | disconnected (id : String) : Took s (.disconnect id) (s.update id fun x => { x with online := false, rooms := [] })
  | idle (a : GatewayAction δ) : Took s a s
  | subscribed {n : Nat} {id : String} {body : Body} {x : Socket δ} {request : SubscribeRequest} {stage : Stage}
      (socket : s.sockets.get id = some x) (verdict : canJoin x.principal request.room ≠ .deny)
      (asks : stage ≠ .asking → canJoin x.principal request.room = .allow) :
      Took s (.subscribe n id body) { s with
        handlers := Function.update s.handlers n (some ⟨id, x.principal, request.room, request.afterSeq, stage⟩) }
  | resolved {n : Nat} {h : Handler} (found : s.handlers n = some h) (owns : s.ownsRoom h.principal h.room = true) :
      Took s (.resolve n) { s with handlers := Function.update s.handlers n (some { h with stage := .allowed }) }
  | refused {n : Nat} {h : Handler} (found : s.handlers n = some h) :
      Took s (.resolve n) { s with handlers := Function.update s.handlers n none }
  | joined {n : Nat} {h : Handler} (found : s.handlers n = some h) (stage : h.stage = .allowed) :
      Took s (.join n) { s.enter h.socket h.room with
        handlers := Function.update s.handlers n (some { h with stage := .joined }) }
  | replayed {n : Nat} {h : Handler} (found : s.handlers n = some h) (stage : h.stage = .joined) :
      Took s (.replay n) { s.hand h.socket (s.log.replay h.principal h.room h.afterSeq).events with
        handlers := Function.update s.handlers n none }
  | left {id room : String} {body : Body} :
      Took s (.unsubscribe id body) (s.update id fun x => { x with rooms := x.rooms.filter (· ≠ room) })
  | published {n : Nat} {call : Call δ} (free : s.deliveries n = none) :
      Took s (.publish n call) { s with
        log := (s.log.append call.room call.event call.data call.ts).1
        deliveries := Function.update s.deliveries n (some ⟨(s.log.append call.room call.event call.data call.ts).2, none⟩)
        published := s.published ++ [(s.log.append call.room call.event call.data call.ts).2] }
  | fetched {n : Nat} {e : Envelope δ} (found : s.deliveries n = some ⟨e, none⟩) :
      Took s (.fetchSockets n) { s with
        deliveries := Function.update s.deliveries n (some ⟨e, some (s.socketsIn e.room)⟩) }
  | failed {n : Nat} {e : Envelope δ} (found : s.deliveries n = some ⟨e, none⟩) :
      Took s (.fetchFailed n) { s with
        deliveries := Function.update s.deliveries n none, undelivered := s.undelivered ++ [e] }
  | finished {n : Nat} {e : Envelope δ} (found : s.deliveries n = some ⟨e, some []⟩) :
      Took s (.emit n) { s with deliveries := Function.update s.deliveries n none }
  | emitted {n : Nat} {e : Envelope δ} {id : String} {rest : List String} {x : Socket δ}
      (found : s.deliveries n = some ⟨e, some (id :: rest)⟩) (socket : s.sockets.get id = some x)
      (receives : canReceive x.principal e.event = true) :
      Took s (.emit n) { s.hand id [e] with deliveries := Function.update s.deliveries n (some ⟨e, some rest⟩) }
  | withheld {n : Nat} {e : Envelope δ} {id : String} {rest : List String}
      (found : s.deliveries n = some ⟨e, some (id :: rest)⟩)
      (denied : ∀ x, s.sockets.get id = some x → canReceive x.principal e.event = false) :
      Took s (.emit n) { s with deliveries := Function.update s.deliveries n (some ⟨e, some rest⟩) }

theorem took_of_step {s s' : Gateway δ} {a : GatewayAction δ} (h : s.step a = some s') : s.Took a s' := by
  cases a with
  | opened ticket => cases h; exact .opened ticket
  | connect id principal =>
    obtain ⟨⟨hfresh,hplain⟩,heq⟩ := Option.ite_none_right_eq_some.mp h
    cases heq
    exact .connected hfresh hplain
  | disconnect id => cases h; exact .disconnected id
  | subscribe n id body =>
    simp only [step] at h
    split at h
    · rename_i x hx hn
      split at h
      · cases h; exact .idle _
      · rename_i request _
        cases h
        unfold begin
        split
        · exact .idle _
        · rename_i hv
          exact .subscribed hx (by rw [hv]; decide) fun _ => hv
        · rename_i hv
          exact .subscribed hx (by rw [hv]; decide) fun hs => absurd rfl hs
    · cases h
  | resolve n =>
    simp only [step] at h
    split at h
    · rename_i hn
      split at h
      · rename_i howns
        cases h
        exact .resolved hn howns
      · cases h
        exact .refused hn
    · cases h
  | join n =>
    simp only [step] at h
    split at h
    · rename_i hn
      cases h
      exact .joined hn rfl
    · cases h
  | replay n =>
    simp only [step] at h
    split at h
    · rename_i hn
      cases h
      exact .replayed hn rfl
    · cases h
  | unsubscribe id body =>
    simp only [step] at h
    split at h
    · cases h; exact .idle _
    · cases h; exact .left
  | publish n call =>
    simp only [step] at h
    split at h
    · cases h
    · rename_i hn
      cases h
      exact .published hn
  | fetchSockets n =>
    simp only [step] at h
    split at h
    · rename_i hn
      cases h
      exact .fetched hn
    · cases h
  | fetchFailed n =>
    simp only [step] at h
    split at h
    · rename_i hn
      cases h
      exact .failed hn
    · cases h
  | emit n =>
    simp only [step] at h
    split at h
    · rename_i hn
      cases h
      exact .finished hn
    · rename_i e id rest hn
      split at h
      · rename_i hany
        cases h
        obtain ⟨x,hx,hrec⟩ := (Option.any_eq_true _ _).mp hany
        exact .emitted hn hx hrec
      · rename_i hany
        cases h
        refine .withheld hn fun x hx => ?_
        simpa [hx] using hany
    · cases h

end Gateway
end Nivara.Realtime
