import Nivara.Slack.Ingestion
import Nivara.Tickets.Conversation

/-! What a contact's reply knows, statement by statement, while other transactions run: the Ticket
it lands on is of the conversation it addressed and was not closed when the reply came to it. -/
namespace Nivara.Tickets
open Transactions

/-- The transactions that run beside one another: replies, threads opened from Slack, and any
others with `P`. -/
inductive Request (P : Work Failure (Option ContactReply) → Prop) where
  | reply (principal : ContactPrincipal) (ticketId : Uuid) (body : String) (source : TicketSource) (at' : Int)
  | openThread (principal : ContactPrincipal) (message : Slack.SlackUtterance) (at' : Int)
  | other (work : Work Failure (Option ContactReply)) (admitted : P work)

variable {P : Work Failure (Option ContactReply) → Prop}

def Request.context {ι : Type} (d : Desk ι) : Request P → TenantContext
  | .reply p _ _ _ _ => ⟨p.tenantId, .contact p.contactId, d.clock⟩
  | .openThread p _ _ => ⟨p.tenantId, .contact p.contactId, d.clock⟩
  | .other work _ => (workService ι _ _).context d work

def Request.script : Request P → Tx (Option ContactReply)
  | .reply p ticketId body source at' => do
    let r ← Tickets.reply p ticketId body source at'
    pure (some r)
  | .openThread p message at' => do
    let r ← Slack.openThread p message at'
    pure (some r)
  | .other work _ => work.script

def requestService (ι : Type) (P : Work Failure (Option ContactReply) → Prop) :
    Service deskLanguage Failure (Option ContactReply) TenantContext (Desk ι) (Request P) where
  context := Request.context
  script := Request.script

variable {ι : Type} [DecidableEq ι]

/-- A reply that only appends puts its Message on a Ticket that still takes one: the row is the
reply's own, reopened or spawned by it, or it is in a state of which `replyOutcomeFor` says so. -/
def takesReply (d : Desk ι) (i : ι) (k : Uuid) : Bool :=
  (d.tickets.own i k).isSome ∨ (d.tickets.visible i k).any fun r => replyOutcomeFor r.state = .append

def Stmt.posts : Stmt → Bool
  | .insertMessage _ _ _ => true
  | _ => false

def Work.Quiet (work : Work Failure (Option ContactReply)) : Prop :=
  work.actor.isContact = true → work.script.Only fun q => Stmt.posts q = false

def replyTerms (watch : Bool) (ι : Type) [DecidableEq ι] (P : Work Failure (Option ContactReply) → Prop) :
    Terms (deskEngine ι) (Option ContactReply) (Request P) where
  begin _ _ := true
  resume d i req _ q _ :=
    match req, q with
    | .reply _ _ _ _ _, .insertMessage k _ _ => !watch || takesReply d i k
    | _, _ => true
  commit _ _ _ _ _ := true

/-- What holds of the database at all times; the Tickets in `K` are closed and stay so. -/
structure Upright (K : Uuid → Prop) (d : Desk ι) : Prop where
  coherent : d.Coherent
  rooted : ∀ S, (d.register S).Rooted
  closed : ∀ k, K k → ∃ r, d.tickets.committed k = some r ∧ r.state = .closed

structure Leaves (i : ι) (d d' : Desk ι) : Prop where
  tickets : ∀ k, d'.tickets.own i k = d.tickets.own i k
  messages : ∀ n, d'.messages.own i n = d.messages.own i n
  evolves : ∀ k r, d.tickets.committed k = some r → ∃ r', d'.tickets.committed k = some r' ∧ Evolves r r'

def Blank (i : ι) (d : Desk ι) : Prop := (∀ k, d.tickets.own i k = none) ∧ ∀ n, d.messages.own i n = none

def Known (i : ι) (k : Uuid) (r : Ticket) (d : Desk ι) : Prop := ∃ r', d.tickets.visible i k = some r' ∧ Evolves r r'

def Joined (i : ι) (k₀ k : Uuid) (d : Desk ι) : Prop :=
  ∃ r₀ r, d.tickets.visible i k₀ = some r₀ ∧ d.tickets.visible i k = some r ∧ r.chain k = r₀.chain k₀

/-- What a transaction of a Contact knows of the Ticket its Message is to go on. -/
structure Aimed (K : Uuid → Prop) (i : ι) (k₀ k : Uuid) (d : Desk ι) : Prop where
  silent : ∀ n, d.messages.own i n = none
  joined : Joined i k₀ k d
  spared : ¬ K k
  ready : ∀ r, d.tickets.own i k = some r → replyOutcomeFor r.state = .append

structure Landed (watch : Bool) (K : Uuid → Prop) (i : ι) (k₀ k n : Uuid) (m : Entry) (d : Desk ι) : Prop where
  joined : Joined i k₀ k d
  spared : ¬ K k
  message : d.messages.own i n = some m
  only : ∀ n' m', d.messages.own i n' = some m' → m' = m
  ticket : m.ticketId = k
  author : m.author.isContact = true
  ready : ∃ r, d.tickets.own i k = some r ∧ (watch = true → replyOutcomeFor r.state = .append)

/-- What is to hold when `i` commits: the Messages of a Contact are on Tickets that take them, and
a reply is on a Ticket of the conversation it addressed, which is none of `K`. -/
def Lands (watch : Bool) (K : Uuid → Prop) (i : ι) (req : Request P) (a : Option ContactReply) (d : Desk ι) : Prop :=
  (watch = true → ∀ n m, d.messages.own i n = some m → m.author.isContact = true →
    ∃ r, d.tickets.own i m.ticketId = some r ∧ replyOutcomeFor r.state = .append) ∧
  match req with
  | .reply _ k₀ _ _ _ => ∃ x, a = some x ∧ Landed watch K i k₀ x.ticketId x.messageId x.message d
  | _ => True

section Database
variable {d d' : Desk ι} {i j : ι} {ctx : TenantContext} {k k₀ : Uuid} {K : Uuid → Prop} {r : Ticket}

theorem upright_of_change {known : Desk ι → ι → TenantContext → Stmt → Cursor → Prop} (h : Upright K d)
    (hc : Changes (deskEngine ι) Desk.world known d d') : Upright K d' := by
  refine ⟨(registers_of_change h.coherent hc).1.1,rooted_of_change h.coherent h.rooted hc,fun k hk => ?_⟩
  obtain ⟨r,hr,hclosed⟩ := h.closed k hk
  obtain ⟨r',hr',hev⟩ := evolves_of_change h.coherent hc hr
  exact ⟨r',hr',(hev.closed hclosed).1⟩

private theorem leaves_of_effect {q : Stmt} {c : Cursor} (hd : d.Coherent) (he : Effect d i ctx q c d')
    (hc : Changes (deskEngine ι) Desk.world (fun _ _ _ _ _ => True) d d') (hj : j ≠ i) : Leaves j d d' :=
  ⟨(own_of_effect he hj).1,(own_of_effect he hj).2,fun _ _ hr => evolves_of_change hd hc hr⟩

private theorem leaves_commit (hd : d.Coherent) (hj : j ≠ i) : Leaves j d (d.commit i) where
  tickets _ := Table.own_commit_other _ _ _ _ hj
  messages _ := Table.own_commit_other _ _ _ _ hj
  evolves _ _ hr := by
    have hc : Changes (deskEngine ι) Desk.world (fun _ _ _ _ _ => True) d (d.commit i) := .commit i
    exact evolves_of_change hd hc hr

private theorem leaves_rollback (hj : j ≠ i) : Leaves j d (d.rollback i) where
  tickets _ := Table.own_rollback_other _ _ _ _ hj
  messages _ := Table.own_rollback_other _ _ _ _ hj
  evolves _ r hr := ⟨r,hr,.refl r⟩

private theorem leaves_world {w : Event} (hw : d.world w = some d') : Leaves j d d' := by
  obtain ⟨clock,users,rfl⟩ := Desk.of_world hw
  exact ⟨fun _ => rfl,fun _ => rfl,fun _ r hr => ⟨r,hr,.refl r⟩⟩

/-- What `i` sees of a Ticket evolves while the others take steps. -/
theorem Leaves.visible (h : Leaves i d d') (hr : d.tickets.visible i k = some r) :
    ∃ r', d'.tickets.visible i k = some r' ∧ Evolves r r' := by
  rcases Table.visible_cases _ _ _ hr with ho | ⟨hn,hc⟩
  · exact ⟨r,Table.visible_of_own _ _ _ ((h.tickets k).trans ho),.refl r⟩
  · obtain ⟨r',hr',hev⟩ := h.evolves k r hc
    exact ⟨r',(Table.visible_of_no_own _ _ _ ((h.tickets k).trans hn)).trans hr',hev⟩

/-- So it does when `i` takes a turn itself. -/
theorem visible_of_effect {q : Stmt} {c : Cursor} (hd : d.Coherent) (he : Effect d i ctx q c d')
    (hr : d.tickets.visible i k = some r) : ∃ r', d'.tickets.visible i k = some r' ∧ Evolves r r' := by
  rw [Table.visible_eq_view] at hr ⊢
  rcases makes_of_effect hd he with hsame | ⟨change,_,hm⟩
  · refine ⟨r,?_,.refl r⟩
    rw [← Desk.register_tickets, hsame, Desk.register_tickets, hr]
  · have hin := hm.inside (fun j => j = i) (by simp)
    rw [← Desk.register_tickets, hin]
    exact (hm.lawful _ (by simp)).later k r hr

theorem Joined.later (h : Joined i k₀ k d) (hlater : ∀ k r, d.tickets.visible i k = some r →
    ∃ r', d'.tickets.visible i k = some r' ∧ Evolves r r') : Joined i k₀ k d' := by
  obtain ⟨r₀,r,hr₀,hr,hchain⟩ := h
  obtain ⟨r₀',hr₀',hev₀⟩ := hlater k₀ r₀ hr₀
  obtain ⟨r',hr',hev⟩ := hlater k r hr
  exact ⟨r₀',r',hr₀',hr',by rw [hev.chain, hev₀.chain, hchain]⟩

theorem Joined.leaves (h : Joined i k₀ k d) (hl : Leaves i d d') : Joined i k₀ k d' := h.later fun _ _ => hl.visible

theorem Known.leaves (h : Known i k r d) (hl : Leaves i d d') : Known i k r d' := by
  obtain ⟨r',hr',hev⟩ := h
  obtain ⟨r'',hr'',hev'⟩ := hl.visible hr'
  exact ⟨r'',hr'',hev.trans _ _ _ hev'⟩

theorem Aimed.leaves (h : Aimed K i k₀ k d) (hl : Leaves i d d') : Aimed K i k₀ k d' where
  silent n := (hl.messages n).trans (h.silent n)
  joined := h.joined.leaves hl
  spared := h.spared
  ready r hr := h.ready r ((hl.tickets k).symm.trans hr)

theorem Landed.leaves {watch : Bool} {n : Uuid} {m : Entry} (h : Landed watch K i k₀ k n m d) (hl : Leaves i d d') :
    Landed watch K i k₀ k n m d' where
  joined := h.joined.leaves hl
  spared := h.spared
  message := (hl.messages n).trans h.message
  only n' m' hm := h.only n' m' ((hl.messages n').symm.trans hm)
  ticket := h.ticket
  author := h.author
  ready := by
    obtain ⟨r,hr,hready⟩ := h.ready
    exact ⟨r,(hl.tickets k).trans hr,hready⟩

end Database

def replyRegime (watch : Bool) (who : ι → Prop) (K : Uuid → Prop) (P : Work Failure (Option ContactReply) → Prop) :
    Regime (deskEngine ι) (Option ContactReply) (Request P) Event Desk.world where
  terms := replyTerms watch ι P
  inv := Upright K
  rely := Leaves
  idle := Blank
  post i req _ a d := who i → Lands watch K i req a d
  inv_rollback d i h := by
    have hc : Changes (deskEngine ι) Desk.world (fun _ _ _ _ _ => True) d (d.rollback i) := .rollback i
    exact upright_of_change h hc
  inv_world d w d' h hw := by
    have hc : Changes (deskEngine ι) Desk.world (fun _ _ _ _ _ => True) d d' := .world hw
    exact upright_of_change h hc
  idle_commit _ _ := ⟨fun _ => Table.own_commit_self ..,fun _ => Table.own_commit_self ..⟩
  idle_rollback _ _ := ⟨fun _ => Table.own_rollback_self ..,fun _ => Table.own_rollback_self ..⟩
  idle_stable _ _ _ hl h := ⟨fun k => (hl.tickets k).trans (h.1 k),fun n => (hl.messages n).trans (h.2 n)⟩
  rely_refl _ _ := ⟨fun _ => rfl,fun _ => rfl,fun _ r hr => ⟨r,hr,.refl r⟩⟩
  rely_commit _ _ _ _ _ _ hj h _ _ := leaves_commit h.coherent hj
  rely_rollback _ _ _ hj _ := leaves_rollback hj
  rely_more _ _ _ _ _ _ _ _ hj h ht := leaves_of_effect h.coherent (effect_of_more ht) (.more trivial ht) hj
  rely_answer _ _ _ _ _ _ _ _ hj h ht := leaves_of_effect h.coherent (effect_of_answer ht) (.answer trivial ht) hj
  rely_world _ _ _ _ _ hw := leaves_world hw

section Rules
variable {watch : Bool} {who : ι → Prop} {K : Uuid → Prop} {i : ι} {req : Request P} {ctx : TenantContext} {k k₀ : Uuid}

private theorem closed_replies : (replyRegime watch who K P).Closed := fun _ _ h hc => upright_of_change h hc

private theorem stable_blank : (replyRegime watch who K P).Stable i (Blank i) :=
  fun d d' _ _ hl h => (replyRegime watch who K P).idle_stable i d d' hl h

private theorem stable_known {r : Ticket} : (replyRegime watch who K P).Stable i (Known i k r) :=
  fun _ _ _ _ hl h => h.leaves hl

private theorem stable_joined : (replyRegime watch who K P).Stable i (Joined i k₀ k) := fun _ _ _ _ hl h => h.leaves hl

private theorem stable_aimed : (replyRegime watch who K P).Stable i (Aimed K i k₀ k) := fun _ _ _ _ hl h => h.leaves hl

private theorem stable_silent : (replyRegime watch who K P).Stable i fun d => ∀ n, d.messages.own i n = none :=
  fun _ _ _ _ hl h n => (hl.messages n).trans (h n)

private theorem stable_own : (replyRegime watch who K P).Stable i fun d => (d.tickets.own i k).isSome = true :=
  fun _ _ _ _ hl h => by simpa only [hl.tickets] using h

private theorem leads_reread {A : Desk ι → Prop} (hA : (replyRegime watch who K P).Stable i A) :
    (replyRegime watch who K P).Leads i req ctx (Tx.findUnique k) A fun _ => A :=
  leads_findUnique hA (fun _ => hA) fun _ _ h => h

/-- The Message goes in: its Ticket is the transaction's own from then on. -/
private theorem landed_of_answer {d d' : Desk ι} {body : String} {t : Int} {c : Cursor} {a : Uuid × Entry}
    (hd : Upright K d) (h : Aimed K i k₀ k d) (hctx : ctx.actor.isContact = true)
    (htakes : watch = true → takesReply d i k = true)
    (ht : (deskEngine ι).resume d i ctx (.insertMessage k body t) c = .answer d' a) :
    Landed watch K i k₀ k a.1 a.2 d' := by
  have hjoined := h.joined.later fun _ _ => visible_of_effect hd.coherent (effect_of_answer ht)
  obtain ⟨old,r,d₁,hf,hs,hst,rfl,rfl⟩ := Desk.posted_of_answer ht
  obtain ⟨entries,he,rfl⟩ := hst.enforced
  have hvis := (Desk.sees_some.mp hs).1
  refine ⟨hjoined,h.spared,Table.own_insert_self _ _ _,fun n' m' hm => ?_,rfl,hctx,r,?_,fun hw => ?_⟩
  · rcases Table.own_insert_cases _ _ _ _ hm with ⟨_,_,hm⟩ | hm
    · exact hm
    · rw [h.silent n'] at hm
      cases hm
  · exact Table.own_write_picked _ _ _ (by simp) hvis rfl
  · have hstate : r.state = old.state := (enforced_of_ok he).state
    rw [hstate]
    rcases Table.visible_cases _ _ _ hvis with ho | ⟨hn,_⟩
    · exact h.ready old ho
    · simpa [takesReply, hn, hvis] using htakes hw

private theorem leads_insertMessage {body : String} {t : Int} {A : Desk ι → Prop}
    (hA : (replyRegime watch who K P).Stable i A) (hctx : ctx.actor.isContact = true)
    (htakes : ∀ d c, A d → (replyTerms watch ι P).resume d i req ctx (.insertMessage k body t) c = true → watch = true →
      takesReply d i k = true) :
    (replyRegime watch who K P).Leads i req ctx (Tx.run (.insertMessage k body t) rethrowMissingTicket)
      (fun d => Aimed K i k₀ k d ∧ A d) fun a => Landed watch K i k₀ k a.1 a.2 := by
  refine Regime.leads_query closed_replies (Regime.stable_and stable_aimed hA) (fun _ _ _ _ _ hl h => h.leaves hl)
    (fun d c d' c' ht => ?_) fun d c d' a hd hAd hterm ht => landed_of_answer hd hAd.1 hctx (htakes d c hAd.2 hterm) ht
  obtain ⟨plan,hq⟩ := update_of_more ht
  cases hq

private theorem leads_postIn {body : String} {t : Int} {A : Desk ι → Prop}
    (hA : (replyRegime watch who K P).Stable i A) (hctx : ctx.actor.isContact = true)
    (htakes : ∀ d c, A d → (replyTerms watch ι P).resume d i req ctx (.insertMessage k body t) c = true → watch = true →
      takesReply d i k = true) :
    (replyRegime watch who K P).Leads i req ctx (postIn k body t) (fun d => Aimed K i k₀ k d ∧ A d)
      fun a => Landed watch K i k₀ k a.1 a.2 := by
  have hstable : (replyRegime watch who K P).Stable i fun d => Aimed K i k₀ k d ∧ A d := Regime.stable_and stable_aimed hA
  refine Regime.leads_bind (Q := fun _ d => Aimed K i k₀ k d ∧ A d) ?_ fun _ => ?_
  · refine Regime.leads_bind (leads_reread hstable) fun row => ?_
    cases row with
    | none => exact Regime.leads_fail
    | some r => exact Regime.leads_done fun _ _ h => h
  · refine Regime.leads_bind (leads_insertMessage hA hctx htakes) fun m => ?_
    refine Regime.Leads.mono (Regime.leads_pure (φ := m.2.author.isContact = true) fun hm => ?_)
      fun d _ h => ⟨h.author,h⟩
    simp only [dispatchIn, hm, if_true]
    exact Regime.leads_done fun _ _ h => h

/-- The rows an `UPDATE` by key has to visit, and what it has written if it has written anything. -/
private structure Reopening (i : ι) (k₀ k : Uuid) (c : Cursor) (d : Desk ι) : Prop where
  silent : ∀ n, d.messages.own i n = none
  joined : Joined i k₀ k d
  todo : ∀ x ∈ c.1, x.1 = k ∧ ∀ old new, x.2 old = some new → new.state = .opened
  done : c.2 ≠ [] → ∃ r, d.tickets.own i k = some r ∧ r.state = .opened

private theorem stable_reopening {c : Cursor} : (replyRegime watch who K P).Stable i (Reopening i k₀ k c) := by
  intro d d' _ _ hl h
  refine ⟨fun n => (hl.messages n).trans (h.silent n),h.joined.leaves hl,h.todo,fun hc => ?_⟩
  obtain ⟨r,hr,hstate⟩ := h.done hc
  exact ⟨r,(hl.tickets k).trans hr,hstate⟩

private theorem reopening_more {d d' : Desk ι} {plan : Uuid → Ticket → Option (Ticket → Option Ticket)} {c c' : Cursor}
    (hd : Upright K d) (h : Reopening i k₀ k c d)
    (ht : (deskEngine ι).resume d i ctx (.updateTickets plan) c = .more d' c') : Reopening i k₀ k c' d' := by
  have hjoined := h.joined.later fun _ _ => visible_of_effect hd.coherent (effect_of_more ht)
  obtain ⟨k',set,rest,written,rfl,hf,⟨rfl,rfl⟩ | ⟨old,new,r,hs,hset,hst,rfl⟩⟩ := Desk.updated_of_more ht
  · exact ⟨h.silent,h.joined,fun x hx => h.todo x (by simp [hx]),h.done⟩
  · obtain ⟨rfl,hstate⟩ := h.todo (k', set) (by simp)
    refine ⟨?_,hjoined,fun x hx => h.todo x (by simp [hx]),fun _ => ⟨r,?_,?_⟩⟩
    · rw [(Desk.stored_frame hst).1]
      exact h.silent
    · obtain ⟨entries,_,rfl⟩ := hst.enforced
      exact Table.own_write_picked _ _ _ (by simp) (Desk.sees_some.mp hs).1 rfl
    · obtain ⟨entries,he,_⟩ := hst.enforced
      rw [(enforced_of_ok he).state]
      exact hstate old new hset

private theorem leads_reopen {matching : Uuid → Ticket → Bool} {data : Ticket → Ticket}
    (hkey : ∀ k' r, matching k' r = true → k' = k) (hdata : ∀ r, (data r).state = .opened) :
    (replyRegime watch who K P).Leads i req ctx (Tx.updateMany matching data rethrowTicketRefusal)
      (fun d => (∀ n, d.messages.own i n = none) ∧ Joined i k₀ k d) fun rows => Reopening i k₀ k ([], rows) := by
  refine Regime.leads_turns closed_replies (A := Reopening i k₀ k) (fun _ => stable_reopening) (fun _ => stable_reopening)
    ?_ ?_ ?_
  · intro d _ hAd
    refine ⟨hAd.1,hAd.2,fun x hx => ?_,fun h => absurd rfl h⟩
    obtain ⟨p,_,hp⟩ := List.mem_filterMap.mp hx
    obtain ⟨set,hset,rfl⟩ := Option.map_eq_some_iff.mp hp
    obtain ⟨hm,heq⟩ := Option.ite_none_right_eq_some.mp hset
    cases heq
    refine ⟨hkey _ _ hm,fun old new hnew => ?_⟩
    obtain ⟨_,heq⟩ := Option.ite_none_right_eq_some.mp hnew
    cases heq
    exact hdata old
  · intro d c d' c' hd h _ ht
    exact reopening_more hd h ht
  · intro d c d' a hd h _ ht
    obtain ⟨rfl,rfl⟩ := Desk.updated_of_answer ht
    exact h

private theorem leads_transitionIn {t : Int} (hspared : ¬ K k) :
    (replyRegime watch who K P).Leads i req ctx (transitionIn [] k .opened t)
      (fun d => (∀ n, d.messages.own i n = none) ∧ Joined i k₀ k d) fun a d => a.1 = k ∧ Aimed K i k₀ k d := by
  refine Regime.leads_bind (leads_reread (Regime.stable_and stable_silent stable_joined)) fun row => ?_
  cases row with
  | none => exact Regime.leads_fail
  | some current =>
    simp only [canTransition, reduceCtorEq, if_false]
    refine Regime.leads_bind (leads_reopen (fun k' r hm => by simp at hm; exact hm.1) fun _ => rfl) fun rows => ?_
    split
    · exact Regime.leads_fail
    · rename_i hrows
      have hstable : (replyRegime watch who K P).Stable i (Aimed K i k₀ k) := stable_aimed
      refine Regime.Leads.mono (Regime.leads_bind (leads_reread hstable) fun row => ?_) fun d _ h => ?_
      · cases row with
        | none => exact Regime.leads_fail
        | some r => exact Regime.leads_done fun _ _ h => ⟨rfl,h⟩
      · refine ⟨h.silent,h.joined,hspared,fun r hr => ?_⟩
        obtain ⟨r',hr',hstate⟩ := h.done (by simpa using hrows)
        cases hr.symm.trans hr'
        rw [hstate]
        rfl

private structure Opened (K : Uuid → Prop) (i : ι) (spawnedFrom : Option Uuid) (k : Uuid) (d : Desk ι) : Prop where
  silent : ∀ n, d.messages.own i n = none
  spared : ¬ K k
  own : ∃ r, d.tickets.own i k = some r ∧ r.state = .opened
  joined : ∀ p, spawnedFrom = some p → Joined i p k d

private theorem Opened.aimed {d : Desk ι} {spawnedFrom : Option Uuid} (h : Opened K i spawnedFrom k d)
    (hjoined : Joined i k₀ k d) : Aimed K i k₀ k d := by
  refine ⟨h.silent,hjoined,h.spared,fun r hr => ?_⟩
  obtain ⟨r',hr',hstate⟩ := h.own
  cases hr.symm.trans hr'
  rw [hstate]
  rfl

private theorem stable_opened {spawnedFrom : Option Uuid} :
    (replyRegime watch who K P).Stable i (Opened K i spawnedFrom k) := by
  intro d d' _ _ hl h
  refine ⟨fun n => (hl.messages n).trans (h.silent n),h.spared,?_,fun p hp => (h.joined p hp).leaves hl⟩
  obtain ⟨r,hr,hstate⟩ := h.own
  exact ⟨r,(hl.tickets k).trans hr,hstate⟩

private theorem opened_of_answer {d d' : Desk ι} {row : Ticket} {c : Cursor} {a : Uuid × Ticket} (hd : Upright K d)
    (hsilent : ∀ n, d.messages.own i n = none)
    (ht : (deskEngine ι).resume d i ctx (.insertTicket row) c = .answer d' a) :
    Opened K i row.spawnedFromTicketId a.1 d' := by
  have hlater : ∀ k r, d.tickets.visible i k = some r → ∃ r', d'.tickets.visible i k = some r' ∧ Evolves r r' :=
    fun _ _ => visible_of_effect hd.coherent (effect_of_answer ht)
  obtain ⟨r,hadm,rfl,rfl⟩ := Desk.admitted_of_answer ht
  have hown : (d.tickets.insert i r).own i d.tickets.size = some r := Table.own_insert_self _ _ _
  have hl := hadm.linkage
  unfold enforceLinkageOnInsert at hl
  refine ⟨hsilent,fun hK => ?_,⟨r,hown,?_⟩,fun p hp => ?_⟩
  · obtain ⟨r',hr',_⟩ := hd.closed _ hK
    exact absurd (Table.lt_size_of_committed _ _ hr') (Nat.lt_irrefl _)
  · split at hl
    · cases hl
      exact hadm.born
    · split at hl
      · cases hl
      · cases hl
        exact hadm.born
  · simp only [hp] at hl
    split at hl
    · cases hl
    · rename_i parent hparent
      obtain ⟨hsees,_⟩ := Option.filter_eq_some_iff.mp hparent
      obtain ⟨parent',hparent',hev⟩ := hlater p parent (Desk.sees_some.mp hsees).1
      cases hl
      refine ⟨parent',_,hparent',Table.visible_of_own _ _ _ hown,?_⟩
      rw [hev.chain]
      rfl

private theorem leads_createIn {tenantId : Uuid} {input : CreateTicketInput} {t : Int} :
    (replyRegime watch who K P).Leads i req ctx (createIn tenantId input t) (fun d => ∀ n, d.messages.own i n = none)
      fun a => Opened K i input.spawnedFromTicketId a.1 := by
  refine Regime.leads_bind (Q := fun a => Opened K i input.spawnedFromTicketId a.1) ?_ fun ticket => ?_
  · refine Regime.leads_query closed_replies stable_silent (fun _ => stable_opened) (fun d c d' c' ht => ?_) ?_
    · obtain ⟨plan,hq⟩ := update_of_more ht
      cases hq
    · intro d c d' a hd hsilent _ ht
      exact opened_of_answer hd hsilent ht
  · have hstable : (replyRegime watch who K P).Stable i (Opened K i input.spawnedFromTicketId ticket.1) := stable_opened
    refine Regime.leads_bind (Q := fun _ => Opened K i input.spawnedFromTicketId ticket.1) ?_
      fun _ => Regime.leads_done fun _ _ h => h
    refine Regime.leads_query closed_replies hstable (fun _ => hstable) (fun d c d' c' ht => ?_) ?_
    · obtain ⟨plan,hq⟩ := update_of_more ht
      cases hq
    · intro d c d' a hd h _ ht
      obtain ⟨_,rfl⟩ := Desk.recorded_of_answer ht
      exact ⟨h.silent,h.spared,h.own,h.joined⟩

/-- A Ticket that is read while nothing of it is the reader's own, and is not closed, is none of `K`. -/
private theorem spared_of_read {d : Desk ι} {r : Ticket} (hd : Upright K d) (hblank : Blank i d)
    (hr : d.tickets.visible i k = some r) (hlive : r.state ≠ .closed) : ¬ K k := by
  intro hK
  obtain ⟨r',hr',hclosed⟩ := hd.closed k hK
  rw [Table.visible_of_no_own _ _ _ (hblank.1 k), hr'] at hr
  cases hr
  exact hlive hclosed

private theorem aimed_of_blank {d : Desk ι} (hblank : Blank i d) (hjoined : Joined i k₀ k d) (hspared : ¬ K k) :
    Aimed K i k₀ k d := by
  refine ⟨hblank.2,hjoined,hspared,fun r hr => ?_⟩
  rw [hblank.1 k] at hr
  cases hr

private theorem leads_targetForLive {ticket : Ticket} {t : Int} (hspared : ¬ K k) :
    (replyRegime watch who K P).Leads i req ctx (targetForLive k ticket t) (fun d => Blank i d ∧ Joined i k₀ k d)
      fun a => Aimed K i k₀ a.2.1 := by
  unfold targetForLive
  split
  · exact Regime.leads_done fun d _ h => aimed_of_blank h.1 h.2 hspared
  · refine Regime.leads_bind (Q := fun a d => a.1 = k ∧ Aimed K i k₀ k d) ?_ fun a => ?_
    · exact (leads_transitionIn hspared).mono fun d _ h => ⟨h.1.2,h.2⟩
    · exact Regime.leads_done fun d _ h => by rw [h.1]; exact h.2

/-- What the lookup of the live Ticket finds is of the conversation, and is none of `K`. -/
private theorem joined_of_live {d : Desk ι} {parent : Ticket} {live : Uuid × Ticket} (hd : Upright K d)
    (hblank : Blank i d) (hknown : Known i k₀ parent d) (hin : live ∈ d.rows i ctx)
    (hlive : inChainWith k₀ parent live.1 live.2 = true ∧ live.2.state ≠ .closed) :
    Joined i k₀ live.1 d ∧ ¬ K live.1 := by
  obtain ⟨r₀,hr₀,hev⟩ := hknown
  have hr := (Desk.sees_some.mp (Desk.mem_rows.mp hin)).1
  refine ⟨⟨r₀,live.2,hr₀,hr,?_⟩,spared_of_read hd hblank hr hlive.2⟩
  have hrooted := hd.rooted fun j => j = i
  rw [Table.visible_eq_view] at hr₀ hr
  refine (hrooted.inChainWith_iff hr₀ hr).mp ?_
  simpa only [inChainWith, hev.chain] using hlive.1

private theorem leads_spawnOrJoinLive {principal : ContactPrincipal} {parent : Ticket} {source : TicketSource} {t : Int} :
    (replyRegime watch who K P).Leads i req ctx (spawnOrJoinLive principal k₀ parent source t)
      (fun d => Blank i d ∧ Known i k₀ parent d) fun a => Aimed K i k₀ a.2.1 := by
  have hstable : (replyRegime watch who K P).Stable i fun d => Blank i d ∧ Known i k₀ parent d :=
    Regime.stable_and stable_blank stable_known
  refine Regime.leads_bind (Q := fun row d => row.elim (Blank i d) fun live => ¬ K live.1 ∧ Blank i d ∧ Joined i k₀ live.1 d)
    (leads_findFirst hstable (fun row => ?_) fun d hd h => ?_) fun row => ?_
  · cases row with
    | none => exact stable_blank
    | some live => exact Regime.stable_and (Regime.stable_const _) (Regime.stable_and stable_blank stable_joined)
  · cases hrow : ((d.rows i ctx).filter fun p => decide (inChainWith k₀ parent p.1 p.2 ∧ p.2.state ≠ .closed)).head? with
    | none => exact h.1
    | some live =>
      obtain ⟨hin,hlive⟩ := List.mem_filter.mp (List.mem_of_mem_head? hrow)
      obtain ⟨hjoined,hspared⟩ := joined_of_live hd h.1 h.2 hin (by simpa using hlive)
      exact ⟨hspared,h.1,hjoined⟩
  · cases row with
    | some live => exact Regime.leads_pure leads_targetForLive
    | none =>
      refine Regime.leads_bind (Q := fun a => Opened K i (some k₀) a.1) ?_ fun a => ?_
      · exact ((leads_createIn).mono fun d _ h => h.2).rethrow
      · exact Regime.leads_done fun d _ h => h.aimed (h.joined k₀ rfl)

private theorem leads_targetFor {principal : ContactPrincipal} {ticket : Ticket} {source : TicketSource} {t : Int}
    (hspared : ticket.state ≠ .closed → ¬ K k₀) :
    (replyRegime watch who K P).Leads i req ctx (targetFor principal k₀ ticket source t)
      (fun d => Blank i d ∧ Known i k₀ ticket d) fun a => Aimed K i k₀ a.2.1 := by
  unfold targetFor
  split
  · exact leads_spawnOrJoinLive
  · rename_i houtcome
    have hlive : ticket.state ≠ .closed := fun hc => houtcome (by rw [hc]; rfl)
    refine (leads_targetForLive (hspared hlive)).mono fun d _ h => ⟨h.1,?_⟩
    obtain ⟨r,hr,_⟩ := h.2
    exact ⟨r,r,hr,hr,rfl⟩

private theorem Landed.takes {d : Desk ι} {n : Uuid} {m : Entry} (h : Landed watch K i k₀ k n m d) (hw : watch = true)
    {n' : Uuid} {m' : Entry} (hm : d.messages.own i n' = some m') :
    ∃ r, d.tickets.own i m'.ticketId = some r ∧ replyOutcomeFor r.state = .append := by
  obtain ⟨r,hr,hready⟩ := h.ready
  rw [h.only n' m' hm, h.ticket]
  exact ⟨r,hr,hready hw⟩

private theorem safe_done {a : Option ContactReply} {A : Desk ι → Prop} (h : ∀ d, A d → Lands watch K i req a d) :
    (replyRegime watch who K P).Safe (ε := Failure) i req ctx (.done a) A :=
  fun d hd hA _ => ⟨closed_replies d _ hd (.commit i),fun _ => h d hA⟩

private theorem safe_reply {principal : ContactPrincipal} {body : String} {source : TicketSource} {t : Int}
    (hctx : ctx.actor.isContact = true) :
    (replyRegime watch who K P).Safe i (.reply principal k₀ body source t) ctx
      (Request.script (P := P) (.reply principal k₀ body source t)) (Blank i) := by
  have hreply : (replyRegime watch who K P).Leads i (.reply principal k₀ body source t) ctx
      (Tickets.reply principal k₀ body source t) (Blank i)
      fun x => Landed watch K i k₀ x.ticketId x.messageId x.message := by
    refine Regime.leads_bind (Q := fun row d => row.elim True fun addressed =>
      (addressed.state ≠ .closed → ¬ K k₀) ∧ Blank i d ∧ Known i k₀ addressed d)
      (leads_findUnique stable_blank (fun row => ?_) fun d hd hblank => ?_) fun row => ?_
    · cases row with
      | none => exact Regime.stable_const True
      | some r => exact Regime.stable_and (Regime.stable_const _) (Regime.stable_and stable_blank stable_known)
    · cases hrow : d.sees i ctx k₀ with
      | none => trivial
      | some r =>
        have hr := (Desk.sees_some.mp hrow).1
        exact ⟨spared_of_read hd hblank hr,hblank,r,hr,.refl r⟩
    · cases row with
      | none => exact Regime.leads_fail
      | some addressed =>
        refine Regime.leads_pure fun hspared => Regime.leads_bind (leads_targetFor hspared) fun target => ?_
        refine Regime.leads_bind (Q := fun m => Landed watch K i k₀ target.2.1 m.1 m.2) ?_
          fun m => Regime.leads_done fun d _ h => h
        refine (leads_postIn (Regime.stable_const True) hctx fun d c _ hterm hw => ?_).mono fun d _ h => ⟨h,trivial⟩
        simpa [replyTerms, hw] using hterm
  refine hreply _ fun x => safe_done fun d h => ⟨fun hw n m hm _ => h.takes hw hm,x,rfl,h⟩

private theorem safe_openThread {principal : ContactPrincipal} {message : Slack.SlackUtterance} {t : Int}
    (hctx : ctx.actor.isContact = true) :
    (replyRegime watch who K P).Safe i (.openThread principal message t) ctx
      (Request.script (P := P) (.openThread principal message t)) (Blank i) := by
  have hopen : (replyRegime watch who K P).Leads i (.openThread principal message t) ctx
      (Slack.openThread principal message t) (Blank i)
      fun x => Landed watch K i x.ticketId x.ticketId x.messageId x.message := by
    refine Regime.leads_bind (leads_createIn.mono fun d _ h => h.2) fun ticket => ?_
    refine Regime.leads_bind (Q := fun m => Landed watch K i ticket.1 ticket.1 m.1 m.2) ?_
      fun m => Regime.leads_done fun d _ h => h
    refine (leads_postIn (A := fun d => (d.tickets.own i ticket.1).isSome) stable_own hctx fun d c hown _ _ => ?_).mono
      fun d _ h => ?_
    · simp [takesReply, hown]
    · obtain ⟨r,hr,_⟩ := h.own
      have hvis := Table.visible_of_own _ _ _ hr
      exact ⟨h.aimed ⟨r,r,hvis,hvis,rfl⟩,by simp [hr]⟩
  exact hopen _ fun x => safe_done fun d h => ⟨fun hw n m hm _ => h.takes hw hm,trivial⟩

/-- What a turn of a quiet transaction leaves of its own Messages. -/
private theorem quiet_of_effect {d d' : Desk ι} {q : Stmt} {c : Cursor} (he : Effect d i ctx q c d')
    (hq : ctx.actor.isContact = true → q.posts = false)
    (h : ∀ n m, d.messages.own i n = some m → m.author.isContact = false) :
    ∀ n m, d'.messages.own i n = some m → m.author.isContact = false := by
  intro n m hm
  cases he with
  | aside _ _ hmsg _ _ => exact h n m (by rwa [hmsg] at hm)
  | updated _ _ _ hst => exact h n m (by rwa [(Desk.stored_frame hst).1] at hm)
  | inserted _ => exact h n m hm
  | posted _ _ _ =>
    rcases Table.own_insert_cases _ _ _ _ hm with ⟨_,_,rfl⟩ | hm
    · exact Bool.eq_false_iff.mpr fun hc => by cases hq hc
    · exact h n m hm
  | noted _ _ hst => exact h n m (by simpa only [(Desk.stored_frame hst).1] using hm)
  | recorded _ => exact h n m hm

private theorem safe_other {work : Work Failure (Option ContactReply)} {hwork : P work}
    (hquiet : watch = true → work.Quiet) (hctx : ctx.actor = work.actor) :
    (replyRegime watch who K P).Safe i (.other work hwork) ctx (Request.script (P := P) (.other work hwork)) (Blank i) := by
  cases hw : watch with
  | false =>
    have hsafe : (replyRegime false who K P).Safe i (.other work hwork) ctx (Request.script (P := P) (.other work hwork))
        fun _ => True := by
      refine Regime.safe_of_kept closed_replies (Regime.stable_const True) (fun _ _ _ _ _ _ _ _ _ => trivial)
        (fun _ _ _ _ _ _ _ _ _ => trivial) (fun a d _ _ _ => ⟨fun h => (by cases h),trivial⟩) (Script.only_any _)
    exact hsafe.mono fun _ _ _ => trivial
  | true =>
    have honly : work.script.Only fun q => ctx.actor.isContact = true → Stmt.posts q = false := by
      rw [hctx]
      cases hc : work.actor.isContact with
      | true => exact (hquiet hw hc).mono fun _ hq _ => hq
      | false => exact (Script.only_any _).mono fun _ _ h => by cases h
    have hsafe : (replyRegime true who K P).Safe i (.other work hwork) ctx (Request.script (P := P) (.other work hwork))
        fun d => ∀ n m, d.messages.own i n = some m → m.author.isContact = false := by
      refine Regime.safe_of_kept closed_replies ?_ (fun q d c d' c' hq _ h ht => quiet_of_effect (effect_of_more ht) hq h)
        (fun q d c d' a hq _ h ht => quiet_of_effect (effect_of_answer ht) hq h) (fun a d _ h _ => ⟨fun _ n m hm hc => ?_,trivial⟩)
        honly
      · intro d d' _ _ hl h n m hm
        exact h n m ((hl.messages n).symm.trans hm)
      · rw [h n m hm] at hc
        cases hc
    refine hsafe.mono fun d _ hblank n m hm => ?_
    rw [hblank.2 n] at hm
    cases hm

/-- Every request has an outline. -/
theorem safe_request (hquiet : watch = true → ∀ work, P work → work.Quiet) (i : ι) (d : Desk ι) (req : Request P) :
    (replyRegime watch who K P).Safe i req (req.context d) req.script (Blank i) := by
  cases req with
  | reply principal k₀ body source t => exact safe_reply rfl
  | openThread principal message t => exact safe_openThread rfl
  | other work hwork => exact safe_other (fun hw => hquiet hw work hwork) rfl

private theorem safe_unwatched (hi : ¬ who i) (p : Tx (Option ContactReply)) :
    (replyRegime watch who K P).Safe i req ctx p fun _ => True :=
  Regime.safe_of_kept closed_replies (Regime.stable_const True) (fun _ _ _ _ _ _ _ _ _ => trivial)
    (fun _ _ _ _ _ _ _ _ _ => trivial) (fun _ _ _ _ h => absurd h hi) (Script.only_any p)

/-- A transaction may be watched from any state on in which it has not begun. -/
theorem covered_from {s : Server deskLanguage Failure (Option ContactReply) ι TenantContext (Desk ι) Cursor (Request P)}
    {K' : Uuid → Prop} (h : (replyRegime watch (fun _ => False) K' P).Covered s) (hup : Upright K s.db)
    (hi : s.sessions i = none) : (replyRegime watch (fun j => j = i) K P).Covered s := by
  refine ⟨hup,h.2.1,fun j x hx => ?_⟩
  have hj : ¬ j = i := by
    rintro rfl
    rw [hi] at hx
    cases hx
  obtain ⟨hdead,hlive,_⟩ := h.2.2 j x hx
  have hsafe : ∀ p, (replyRegime watch (fun j => j = i) K P).Safe j x.req x.ctx p fun _ => True := safe_unwatched hj
  refine ⟨hdead,fun ha => ?_,trivial⟩
  rcases hlive ha with ⟨hc,_⟩ | ⟨q,next,c,_,hscript,hc,_⟩
  · exact .inl ⟨hc,fun _ => True,Regime.stable_const True,trivial,hsafe _⟩
  · refine .inr ⟨q,next,c,fun _ _ => True,hscript,hc,fun _ => Regime.stable_const True,trivial,fun d c hd _ _ => ⟨?_,?_⟩⟩
    · intro d' c' ht
      exact ⟨closed_replies d d' hd (.more trivial ht),trivial⟩
    · intro d' a ht
      exact ⟨closed_replies d d' hd (.answer trivial ht),fun _ => True,Regime.stable_const True,trivial,hsafe _⟩

/-- Without the condition on appending replies any step may be taken. -/
theorem admits_unwatched (s : Server deskLanguage Failure (Option ContactReply) ι TenantContext (Desk ι) Cursor (Request P))
    (m : Move ι (Request P) Event) : (replyTerms false ι P).admits s m = true := by
  have hresume : ∀ d i req ctx q c, (replyTerms false ι P).resume d i req ctx q c = true := by
    intro d i req ctx q c
    cases req <;> cases q <;> rfl
  exact Terms.admits_of_all (fun _ _ => rfl) hresume (fun _ _ _ _ _ => rfl) s m

end Rules

theorem upright_empty : Upright (fun _ => False) (Desk.empty : Desk ι) where
  coherent := coherent_empty
  rooted _ _ _ hr := by cases hr
  closed _ h := h.elim

end Nivara.Tickets
