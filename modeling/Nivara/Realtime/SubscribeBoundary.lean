import Nivara.Realtime.Confidentiality

/-! No event is lost where a subscribe meets the publishers. What was appended before the replay is in
the replay; what is appended after it is delivered to a room the socket is in already. Only the order
in which either side takes its steps makes it so. -/
namespace Nivara.Realtime.Gateway
open Collections Transactions

variable {δ : Type} {s s' : Gateway δ} {id room : String} {principal : RealtimePrincipal} {afterSeq : Nat}

def Inside (s : Gateway δ) (id room : String) : Prop := id ∈ s.socketsIn room

instance (s : Gateway δ) (id room : String) : Decidable (s.Inside id room) :=
  inferInstanceAs (Decidable (id ∈ s.socketsIn room))

/-- The socket has the envelope, or a delivery under way is going to bring it, or its sockets could
not be fetched. -/
def Bound (s : Gateway δ) (id : String) (e : Envelope δ) : Prop :=
  (∃ x, s.sockets.get id = some x ∧ e ∈ x.received) ∨ e ∈ s.undelivered ∨
    ∃ n ids, s.deliveries n = some ⟨e, ids⟩ ∧ ∀ l, ids = some l → id ∈ l

/-- All envelopes of the room above the cursor that the socket may receive. -/
def AllBound (s : Gateway δ) (id : String) (principal : RealtimePrincipal) (room : String) (afterSeq : Nat) : Prop :=
  ∀ e ∈ s.published, e.room = room → afterSeq < e.seq → canReceive principal e.event = true → s.Bound id e

/-- What has been received stays received. -/
theorem received_update {j : String} {f : Socket δ → Socket δ} {e : Envelope δ}
    (hf : ∀ x : Socket δ, e ∈ x.received → e ∈ (f x).received) (h : ∃ x, s.sockets.get id = some x ∧ e ∈ x.received) :
    ∃ x, (s.update j f).sockets.get id = some x ∧ e ∈ x.received := by
  obtain ⟨x,hx,he⟩ := h
  rw [get_update]
  split
  · rename_i hid
    rw [← hid, hx]
    refine ⟨if x.online then f x else x,rfl,?_⟩
    split
    · exact hf x he
    · exact he
  · exact ⟨x,hx,he⟩

/-- An update of a socket that takes back nothing of what was received. -/
theorem bound_update {j : String} {f : Socket δ → Socket δ} {e : Envelope δ}
    (hf : ∀ x : Socket δ, e ∈ x.received → e ∈ (f x).received) (h : s.Bound id e) : (s.update j f).Bound id e := by
  rcases h with hgot | hlost | hcoming
  · exact .inl (received_update hf hgot)
  · exact .inr (.inl (by rwa [update_undelivered]))
  · exact .inr (.inr (by rwa [update_deliveries]))

/-- A delivery goes on to what still brings the envelope, if it was the one to bring it. -/
theorem bound_delivery {n : Nat} {e : Envelope δ} {d : Option (Delivery δ)} (h : s.Bound id e)
    (hd : ∀ ids, s.deliveries n = some ⟨e, ids⟩ → (∀ l, ids = some l → id ∈ l) →
      (∃ x, s.sockets.get id = some x ∧ e ∈ x.received) ∨ ∃ ids, d = some ⟨e, ids⟩ ∧ ∀ l, ids = some l → id ∈ l) :
    Bound { s with deliveries := Function.update s.deliveries n d } id e := by
  rcases h with hgot | hlost | ⟨m,ids,hm,hids⟩
  · exact .inl hgot
  · exact .inr (.inl hlost)
  · by_cases hmn : m = n
    · subst hmn
      rcases hd ids hm hids with hgot | ⟨ids',rfl,hids'⟩
      · exact .inl hgot
      · exact .inr (.inr ⟨m,ids',Function.update_self ..,hids'⟩)
    · exact .inr (.inr ⟨m,ids,(Function.update_of_ne hmn ..).trans hm,hids⟩)

/-- What is handed to a socket that is there has been received. -/
theorem received_hand {e : Envelope δ} {events : List (Envelope δ)} (hin : s.Inside id room) (he : e ∈ events) :
    ∃ x, (s.hand id events).sockets.get id = some x ∧ e ∈ x.received := by
  obtain ⟨x,hx,honline,_⟩ := mem_socketsIn.mp hin
  refine ⟨{ x with received := x.received ++ events },?_,List.mem_append_right _ he⟩
  rw [hand, get_update, if_pos rfl, hx, Option.map_some, if_pos honline]

/-- While the socket is in the room, no step leaves an envelope unbound. -/
theorem bound_step {a : GatewayAction δ} {e : Envelope δ}
    (hsocket : ∀ x, s.sockets.get id = some x → x.principal = principal) (hin : s.Inside id room)
    (hroom : e.room = room) (hrec : canReceive principal e.event = true) (h : s.Bound id e) (hs : s.step a = some s') :
    s'.Bound id e := by
  cases took_of_step hs with
  | opened ticket => exact h
  | connected hfresh _ =>
    rcases h with ⟨x,hx,he⟩ | hrest
    · refine .inl ⟨x,?_,he⟩
      have hne : id ≠ _ := fun heq => by
        rw [heq, hfresh] at hx
        cases hx
      exact OrderedMap.get_set.trans ((if_neg hne).trans hx)
    · exact .inr hrest
  | disconnected j => exact bound_update (fun x hx => hx) h
  | idle => exact h
  | subscribed _ _ _ => exact h
  | resolved _ _ => exact h
  | refused _ => exact h
  | @joined n hd _ _ =>
    have hentered : (s.enter hd.socket hd.room).Bound id e := bound_update (fun x hx => hx) h
    exact hentered
  | @replayed n hd _ _ =>
    have hhanded : (s.hand hd.socket (s.log.replay hd.principal hd.room hd.afterSeq).events).Bound id e :=
      bound_update (fun x hx => List.mem_append_left _ hx) h
    exact hhanded
  | left => exact bound_update (fun x hx => hx) h
  | published hfree =>
    refine (bound_delivery h fun ids hn => ?_ :)
    rw [hfree] at hn
    cases hn
  | @fetched n e' hn =>
    refine bound_delivery h fun ids hm _ => .inr ?_
    cases hn.symm.trans hm
    refine ⟨_,rfl,fun l hl => ?_⟩
    cases hl
    rw [hroom]
    exact hin
  | @failed n e' hn =>
    by_cases he : e = e'
    · exact .inr (.inl (List.mem_append_right _ (by simp [he])))
    · rcases h with hgot | hlost | ⟨m,ids,hm,hids⟩
      · exact .inl hgot
      · exact .inr (.inl (List.mem_append_left _ hlost))
      · refine .inr (.inr ⟨m,ids,?_,hids⟩)
        refine (Function.update_of_ne (fun hmn => he ?_) ..).trans hm
        rw [hmn, hn] at hm
        cases hm
        rfl
  | finished hn =>
    refine bound_delivery h fun ids hm hids => ?_
    cases hn.symm.trans hm
    cases hids [] rfl
  | @emitted n e' j rest x hn hx _ =>
    have hsame : (s.hand j [e']).deliveries = s.deliveries := update_deliveries
    have hhanded : (s.hand j [e']).Bound id e := bound_update (fun x hx => List.mem_append_left _ hx) h
    have hnext := bound_delivery (n := n) (d := some ⟨e', some rest⟩) hhanded fun ids hm hids => by
      rw [hsame] at hm
      cases hn.symm.trans hm
      rcases List.mem_cons.mp (hids _ rfl) with rfl | hlater
      · exact .inl (received_hand hin (List.mem_singleton.mpr rfl))
      · exact .inr ⟨_,rfl,fun l hl => by cases hl; exact hlater⟩
    rw [hsame] at hnext
    exact hnext
  | @withheld n e' j rest hn hdenied =>
    refine bound_delivery h fun ids hm hids => .inr ?_
    cases hn.symm.trans hm
    refine ⟨_,rfl,fun l hl => ?_⟩
    cases hl
    rcases List.mem_cons.mp (hids _ rfl) with rfl | hlater
    · obtain ⟨x,hx,_⟩ := mem_socketsIn.mp hin
      have hno := hdenied x hx
      rw [hsocket x hx, hrec] at hno
      cases hno
    · exact hlater

/-- The principal of a socket is fixed at connect. -/
theorem principal_step {a : GatewayAction δ} (h : ∃ x, s.sockets.get id = some x ∧ x.principal = principal)
    (hs : s.step a = some s') : ∃ x, s'.sockets.get id = some x ∧ x.principal = principal := by
  obtain ⟨x,hx,hp⟩ := h
  have hupdate : ∀ (j : String) (f : Socket δ → Socket δ), (∀ y, (f y).principal = y.principal) →
      ∃ x', (s.update j f).sockets.get id = some x' ∧ x'.principal = principal := fun j f hf => by
    have hkept : ∃ x', (s.update j f).sockets.get id = some x' ∧ x'.principal = x.principal :=
      principal_update (fun y _ => hf y) hx
    rwa [hp] at hkept
  cases took_of_step hs with
  | connected hfresh _ =>
    have hne : id ≠ _ := fun heq => by
      rw [heq, hfresh] at hx
      cases hx
    exact ⟨x,OrderedMap.get_set.trans ((if_neg hne).trans hx),hp⟩
  | disconnected j => exact hupdate j _ fun _ => rfl
  | joined _ _ => exact hupdate _ _ fun _ => rfl
  | replayed _ _ => exact hupdate _ _ fun _ => rfl
  | left => exact hupdate _ _ fun _ => rfl
  | emitted _ _ _ => exact hupdate _ _ fun _ => rfl
  | opened _ => exact ⟨x,hx,hp⟩
  | idle => exact ⟨x,hx,hp⟩
  | subscribed _ _ _ => exact ⟨x,hx,hp⟩
  | resolved _ _ => exact ⟨x,hx,hp⟩
  | refused _ => exact ⟨x,hx,hp⟩
  | published _ => exact ⟨x,hx,hp⟩
  | fetched _ => exact ⟨x,hx,hp⟩
  | failed _ => exact ⟨x,hx,hp⟩
  | finished _ => exact ⟨x,hx,hp⟩
  | withheld _ _ => exact ⟨x,hx,hp⟩

/-- A step publishes nothing, or one envelope whose delivery has just begun. -/
theorem published_of_step {a : GatewayAction δ} (hs : s.step a = some s') :
    s'.published = s.published ∨
      ∃ e n, s'.published = s.published ++ [e] ∧ s'.deliveries n = some ⟨e, none⟩ := by
  cases took_of_step hs with
  | published _ => exact .inr ⟨_,_,rfl,Function.update_self ..⟩
  | disconnected _ => exact .inl update_published
  | joined _ _ => exact .inl update_published
  | replayed _ _ => exact .inl update_published
  | left => exact .inl update_published
  | emitted _ _ _ => exact .inl update_published
  | connected _ _ => exact .inl rfl
  | opened _ => exact .inl rfl
  | idle => exact .inl rfl
  | subscribed _ _ _ => exact .inl rfl
  | resolved _ _ => exact .inl rfl
  | refused _ => exact .inl rfl
  | fetched _ => exact .inl rfl
  | failed _ => exact .inl rfl
  | finished _ => exact .inl rfl
  | withheld _ _ => exact .inl rfl

theorem allBound_step {a : GatewayAction δ} (hsocket : ∃ x, s.sockets.get id = some x ∧ x.principal = principal)
    (hin : s.Inside id room) (h : s.AllBound id principal room afterSeq) (hs : s.step a = some s') :
    s'.AllBound id principal room afterSeq := by
  obtain ⟨x,hx,hp⟩ := hsocket
  have hsame : ∀ y, s.sockets.get id = some y → y.principal = principal := fun y hy => by
    cases hx.symm.trans hy
    exact hp
  intro e he hroom hafter hrec
  rcases published_of_step hs with hpub | ⟨e',n,hpub,hn⟩
  · rw [hpub] at he
    exact bound_step hsame hin hroom hrec (h e he hroom hafter hrec) hs
  · rw [hpub, List.mem_append, List.mem_singleton] at he
    rcases he with he | rfl
    · exact bound_step hsame hin hroom hrec (h e he hroom hafter hrec) hs
    · exact .inr (.inr ⟨n,none,hn,fun l hl => (by cases hl)⟩)

/-- An acknowledgement without a gap: all there is above the cursor has been handed over. -/
theorem allBound_replay {h : Handler} (hg : s.Guarded) (hin : s.Inside h.socket h.room)
    (hafter : 0 < h.afterSeq) (hgap : (s.log.replay h.principal h.room h.afterSeq).gap = false) :
    (s.hand h.socket (s.log.replay h.principal h.room h.afterSeq).events).AllBound h.socket h.principal h.room h.afterSeq := by
  intro e he hroom hlate hrec
  rw [hand, update_published] at he
  refine .inl (received_hand hin ?_)
  rw [replay_of_window (hg.numbered.window h.room) hafter hgap]
  refine List.mem_filter.mpr ⟨List.mem_filter.mpr ⟨he,?_⟩,?_⟩
  · simpa using hroom
  · simp [hlate, hrec]

def Brings (s : Gateway δ) (n : Nat) (id : String) (e : Envelope δ) : Prop :=
  ∃ own t, (∀ a ∈ own, a = .fetchSockets n ∨ a = .emit n) ∧ Run step Always s own t ∧
    ∃ x, t.sockets.get id = some x ∧ e ∈ x.received

private theorem brings_of_step {n : Nat} {e : Envelope δ} {a : GatewayAction δ} (ha : a = .fetchSockets n ∨ a = .emit n)
    (hs : s.step a = some s') (h : s'.Brings n id e) : s.Brings n id e := by
  obtain ⟨own,t,hown,hr,hgot⟩ := h
  refine ⟨a :: own,t,?_,(Run.snoc .nil trivial hs).append hr,hgot⟩
  exact List.forall_mem_cons.mpr ⟨ha,hown⟩

/-- By induction on the sockets that are still to be emitted to. -/
private theorem brings_of_fetched {n : Nat} {e : Envelope δ} {l : List String} (hrec : canReceive principal e.event = true)
    (hx : ∃ x, s.sockets.get id = some x ∧ x.principal = principal) (hin : s.Inside id room)
    (hn : s.deliveries n = some ⟨e, some l⟩) (hl : id ∈ l) : s.Brings n id e := by
  induction l generalizing s with
  | nil => cases hl
  | cons j rest ih =>
    have hs : s.step (.emit n) = some { (if (s.sockets.get j).any (canReceive ·.principal e.event) then s.hand j [e] else s) with
        deliveries := Function.update s.deliveries n (some ⟨e, some rest⟩) } := by
      simp only [step, hn]
    refine brings_of_step (.inr rfl) hs ?_
    by_cases hj : id = j
    · subst hj
      obtain ⟨x,hget,hp⟩ := hx
      refine ⟨[],_,fun _ ha => (by cases ha),.nil,?_⟩
      rw [hget, Option.any_some, hp, if_pos hrec]
      exact received_hand hin (List.mem_singleton.mpr rfl)
    · refine ih (principal_step hx hs) ?_ (Function.update_self ..) ((List.mem_cons.mp hl).resolve_left hj)
      obtain ⟨x,hget,hroom⟩ := mem_socketsIn.mp hin
      refine mem_socketsIn.mpr ⟨x,?_,hroom⟩
      split
      · exact (get_update id).trans ((if_neg hj).trans hget)
      · exact hget

private theorem brings_of_delivery {n : Nat} {e : Envelope δ} {ids : Option (List String)}
    (hrec : canReceive principal e.event = true) (hx : ∃ x, s.sockets.get id = some x ∧ x.principal = principal)
    (hin : s.Inside id e.room) (hn : s.deliveries n = some ⟨e, ids⟩) (hids : ∀ l, ids = some l → id ∈ l) :
    s.Brings n id e := by
  cases ids with
  | some l => exact brings_of_fetched hrec hx hin hn (hids l rfl)
  | none =>
    have hs : s.step (.fetchSockets n) = some { s with
        deliveries := Function.update s.deliveries n (some ⟨e, some (s.socketsIn e.room)⟩) } := by
      simp only [step, hn]
    refine brings_of_step (.inl rfl) hs ?_
    exact brings_of_fetched hrec hx hin (Function.update_self ..) hin

/-- Of all envelopes of the room that the principal may receive and that came after the cursor, each
whose sockets could be fetched has been emitted to the socket, or is by the steps left of its delivery. -/
def NothingMissed (s : Gateway δ) (id : String) (principal : RealtimePrincipal) (room : String) (afterSeq : Nat) : Prop :=
  ∀ e ∈ s.published, e.room = room → afterSeq < e.seq → canReceive principal e.event = true → e ∉ s.undelivered →
    (∃ x, s.sockets.get id = some x ∧ e ∈ x.received) ∨
    ∃ n ids, s.deliveries n = some ⟨e, ids⟩ ∧ (s.Inside id room → s.Brings n id e)

theorem nothingMissed_of_allBound (hx : ∃ x, s.sockets.get id = some x ∧ x.principal = principal)
    (h : s.AllBound id principal room afterSeq) : s.NothingMissed id principal room afterSeq := by
  intro e he hroom hafter hrec hfetched
  rcases h e he hroom hafter hrec with hgot | hlost | ⟨n,ids,hn,hids⟩
  · exact .inl hgot
  · exact absurd hlost hfetched
  · refine .inr ⟨n,ids,hn,fun hin => ?_⟩
    subst hroom
    exact brings_of_delivery hrec hx hin hn hids

/-- However the publishers and the subscribers take their steps: from an acknowledgement without a gap
on, and for as long as the socket stays in the room. -/
theorem nothingMissed_of_run {options : EventLogOptions} {acts acts' : List (GatewayAction δ)} {s₀ s₁ : Gateway δ}
    {n : Nat} {h : Handler} (hr : Run step Always (initial options) acts s₀) (hn : s₀.handlers n = some h)
    (hstage : h.stage = .joined) (hafter : 0 < h.afterSeq)
    (hgap : (s₀.log.replay h.principal h.room h.afterSeq).gap = false) (hin : s₀.Inside h.socket h.room)
    (hs : s₀.step (.replay n) = some s₁) (hr' : Run step (fun t _ => t.Inside h.socket h.room) s₁ acts' s) :
    s.NothingMissed h.socket h.principal h.room h.afterSeq := by
  have hg : s₀.Guarded := hr.invariant (guarded_initial options) fun _ _ _ ht _ hs => guarded_step ht hs
  have hreplayed : s₁.AllBound h.socket h.principal h.room h.afterSeq := by
    obtain ⟨id,principal,room,afterSeq,stage⟩ := h
    cases hstage
    simp only [step, hn, Option.some.injEq] at hs
    subst hs
    exact allBound_replay hg hin hafter hgap
  have hinv := hr'.invariant (I := fun t => (∃ x, t.sockets.get h.socket = some x ∧ x.principal = h.principal) ∧
      t.AllBound h.socket h.principal h.room h.afterSeq) ⟨principal_step (hg.handlers n h hn).1 hs,hreplayed⟩
    fun t a u ht hinside hstep => ⟨principal_step ht.1 hstep,allBound_step ht.1 hinside ht.2 hstep⟩
  exact nothingMissed_of_allBound hinv.1 hinv.2

private def boundaryRoom : String := agentsRoom "4d0e7a1c-2b3f-4a5e-8c9d-0f1e2a3b4c5d"

/-- A member of staff comes back with the first number. The second update is appended before it joins,
and finds it not yet in the room; the third is appended between the join and the replay. -/
private def comingBack : List (GatewayAction Nat) :=
  [.connect "s1" (.user "4d0e7a1c-2b3f-4a5e-8c9d-0f1e2a3b4c5d" "u1"), .publish 0 ⟨boundaryRoom, .ticketUpdated, 1, 1⟩,
    .publish 1 ⟨boundaryRoom, .ticketUpdated, 2, 2⟩, .fetchSockets 1, .emit 1,
    .subscribe 0 "s1" (.obj [("room", .str boundaryRoom), ("afterSeq", .num 1)]), .join 0,
    .publish 2 ⟨boundaryRoom, .ticketUpdated, 3, 3⟩]

private def liveAgain : List (GatewayAction Nat) :=
  [.publish 3 ⟨boundaryRoom, .ticketUpdated, 4, 4⟩, .fetchSockets 3, .emit 3, .emit 3]

private def returning : Handler := ⟨"s1", .user "4d0e7a1c-2b3f-4a5e-8c9d-0f1e2a3b4c5d" "u1", boundaryRoom, 1, .joined⟩

theorem nothingMissed_of_comingBack : ∃ s : Gateway Nat,
    s.NothingMissed "s1" (.user "4d0e7a1c-2b3f-4a5e-8c9d-0f1e2a3b4c5d" "u1") boundaryRoom 1 ∧
      (s.sockets.get "s1").map (fun x => x.received.map Envelope.seq) = some [2, 3, 4] := by
  have hrun : (exec step Always (initial ⟨none, none⟩) comingBack).any (fun s₀ =>
      s₀.handlers 0 = some returning ∧ (s₀.log.replay returning.principal boundaryRoom 1).gap = false ∧
        s₀.Inside "s1" boundaryRoom ∧ (s₀.step (.replay 0)).any fun s₁ =>
          (exec step (fun t _ => t.Inside "s1" boundaryRoom) s₁ liveAgain).any fun s =>
            (s.sockets.get "s1").map (fun x => x.received.map Envelope.seq) = some [2, 3, 4]) = true := by
    decide +kernel
  obtain ⟨s₀,hr,hall⟩ := exec_any hrun
  obtain ⟨hn,hgap,hin,hnext⟩ := of_decide_eq_true hall
  obtain ⟨s₁,hs,hrest⟩ := (Option.any_eq_true _ _).mp hnext
  obtain ⟨s,hr',hgot⟩ := exec_any hrest
  exact ⟨s,nothingMissed_of_run hr hn rfl (by decide) hgap hin hs hr',of_decide_eq_true hgot⟩

end Nivara.Realtime.Gateway
