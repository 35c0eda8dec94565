import Nivara.Tickets.Effects
import Nivara.Transactions.View

/-! The desk as one writer at a time would keep it: a register of Tickets with its log, and the
changes that may be made to it. Each view of the database, of any set of the open transactions,
is such a register, and a statement is one change of the views that have its transaction. -/
namespace Nivara.Tickets
open Transactions

/-- What may become of a Ticket from one version to a later one. -/
structure Evolves (r r' : Ticket) : Prop where
  tenantId : r'.tenantId = r.tenantId
  spawnedFrom : r'.spawnedFromTicketId = r.spawnedFromTicketId
  root : r'.rootTicketId = r.rootTicketId
  channel : r'.slackChannelId = r.slackChannelId
  thread : r'.slackThreadTs = r.slackThreadTs
  closed : r.state = .closed → r'.state = .closed ∧ r'.priority = r.priority ∧ r'.assigneeId = r.assigneeId
  firstResponse : r.firstResponseAt.isSome → r'.firstResponseAt = r.firstResponseAt
  firstResponseBreached : r.firstResponseBreachedAt.isSome → r'.firstResponseBreachedAt = r.firstResponseBreachedAt
  resolutionBreached : r.resolutionBreachedAt.isSome → r'.resolutionBreachedAt = r.resolutionBreachedAt

theorem Evolves.refl (r : Ticket) : Evolves r r :=
  ⟨rfl,rfl,rfl,rfl,rfl,fun h => ⟨h,rfl,rfl⟩,fun _ => rfl,fun _ => rfl,fun _ => rfl⟩

theorem Evolves.trans (a b c : Ticket) (hab : Evolves a b) (hbc : Evolves b c) : Evolves a c where
  tenantId := hbc.tenantId.trans hab.tenantId
  spawnedFrom := hbc.spawnedFrom.trans hab.spawnedFrom
  root := hbc.root.trans hab.root
  channel := hbc.channel.trans hab.channel
  thread := hbc.thread.trans hab.thread
  closed h := by
    obtain ⟨hb,hp,ha⟩ := hab.closed h
    obtain ⟨hc,hp',ha'⟩ := hbc.closed hb
    exact ⟨hc,hp'.trans hp,ha'.trans ha⟩
  firstResponse h := by
    have hb := hab.firstResponse h
    rw [hbc.firstResponse (by rwa [hb]), hb]
  firstResponseBreached h := by
    have hb := hab.firstResponseBreached h
    rw [hbc.firstResponseBreached (by rwa [hb]), hb]
  resolutionBreached h := by
    have hb := hab.resolutionBreached h
    rw [hbc.resolutionBreached (by rwa [hb]), hb]

theorem Evolves.chain {r r' : Ticket} (h : Evolves r r') (k : Uuid) : r'.chain k = r.chain k := by
  simp [Ticket.chain, h.root]

private theorem setOnce_of_isSome {old new : Option Int} (h : old.isSome) : setOnce old new = old := by
  cases old with
  | none => cases h
  | some _ => rfl

/-- A linkage that passes the trigger is the old one. -/
theorem linkage_of_ok {old new : Ticket} (h : enforceLinkageOnUpdate old new = .ok ()) :
    new.spawnedFromTicketId = old.spawnedFromTicketId ∧ new.rootTicketId = old.rootTicketId ∧
      new.slackChannelId = old.slackChannelId ∧ new.slackThreadTs = old.slackThreadTs := by
  unfold enforceLinkageOnUpdate at h
  split at h
  · cases h
  · rename_i hl
    split at h
    · cases h
    · rename_i hr
      simp only [not_or, ne_eq, not_not] at hl hr
      exact ⟨hl.1,hl.2,hr.1,hr.2⟩

theorem evolves_of_enforced {k : Uuid} {now : Int} {old new r : Ticket} {entries : List AuditEntry}
    (hl : enforceLinkageOnUpdate old new = .ok ()) (he : ticketEnforceTransition k now old new = .ok (r, entries))
    (ht : r.tenantId = old.tenantId) : Evolves old r := by
  have henf := enforced_of_ok he
  obtain ⟨hsp,hroot,hch,hth⟩ := linkage_of_ok hl
  have hrest := henf.rest
  refine ⟨ht,?_,?_,?_,?_,fun hc => ?_,fun h => ?_,fun h => ?_,fun h => ?_⟩
  · rw [hrest]
    exact hsp
  · rw [hrest]
    exact hroot
  · rw [hrest]
    exact hch
  · rw [hrest]
    exact hth
  · refine ⟨?_,henf.locked hc⟩
    -- no pair of the table leaves `closed`
    rcases henf.legal with hs | hs
    · rw [hs, hc]
    · rw [hc] at hs
      cases r.state <;> simp [ticketTransitionIsLegal] at hs
  · rw [henf.firstResponse, setOnce_of_isSome h]
  · rw [henf.firstResponseBreached, setOnce_of_isSome h]
  · rw [henf.resolutionBreached, setOnce_of_isSome h]

structure Register where
  tickets : Uuid → Option Ticket
  audit : List AuditEntry

inductive Change where
  | stored (k : Uuid) (now : Int) (old new r : Ticket) (entries : List AuditEntry)
  | opened (k : Uuid) (r : Ticket)
  | recorded (k : Uuid) (entry : Recorded) (t : Int)

namespace Register

def apply (b : Register) : Change → Register
  | .stored k _ _ _ r entries => ⟨Function.update b.tickets k (some r), b.audit ++ entries⟩
  | .opened k r => ⟨Function.update b.tickets k (some r), b.audit⟩
  | .recorded k entry t => ⟨b.tickets, b.audit ++ [entry.entry k t]⟩

def Linked (b : Register) (r : Ticket) : Prop :=
  match r.spawnedFromTicketId with
  | none => r.rootTicketId = none
  | some p => ∃ parent, b.tickets p = some parent ∧ parent.tenantId = r.tenantId ∧
      r.rootTicketId = some (parent.chain p) ∧ r.slackChannelId = parent.slackChannelId ∧
      r.slackThreadTs = parent.slackThreadTs

/-- What the triggers and constraints ask of a change, when the next Ticket gets the id `n`. -/
inductive Lawful (b : Register) (n : Uuid) : Change → Prop
  | stored {k : Uuid} {now : Int} {old new r : Ticket} {entries : List AuditEntry} (found : b.tickets k = some old)
      (linkage : enforceLinkageOnUpdate old new = .ok ())
      (enforced : ticketEnforceTransition k now old new = .ok (r, entries)) (tenant : r.tenantId = old.tenantId) :
      Lawful b n (.stored k now old new r entries)
  | opened {r : Ticket} (fresh : ∀ k r', b.tickets k = some r' → k < n) (born : r.state = .opened)
      (linked : b.Linked r) (alone : ∀ k r', b.tickets k = some r' → conflicts n r k r' = false) :
      Lawful b n (.opened n r)
  | recorded {k : Uuid} {entry : Recorded} {t : Int} (found : (b.tickets k).isSome) :
      Lawful b n (.recorded k entry t)

end Register

variable {ι : Type}

def Desk.register (d : Desk ι) (S : ι → Bool) : Register := ⟨d.tickets.view S, d.audit.scan S⟩

@[simp] theorem Desk.register_tickets (d : Desk ι) (S : ι → Bool) : (d.register S).tickets = d.tickets.view S := rfl
@[simp] theorem Desk.register_audit (d : Desk ι) (S : ι → Bool) : (d.register S).audit = d.audit.scan S := rfl

variable [DecidableEq ι]

/-- A commit puts the transaction into every view, a rollback takes it out of them. -/
theorem Desk.register_commit (d : Desk ι) (i : ι) (S : ι → Bool) :
    (d.commit i).register S = d.register fun j => j = i || S j := by
  simp only [Desk.register, Desk.commit, Table.view_commit, Table.scan_commit]

theorem Desk.register_rollback (d : Desk ι) (i : ι) (S : ι → Bool) :
    (d.rollback i).register S = d.register fun j => j ≠ i && S j := by
  simp only [Desk.register, Desk.rollback, Table.view_rollback, Table.scan_rollback]

inductive Issues (d : Desk ι) (i : ι) (ctx : TenantContext) : Stmt → Cursor → Change → Prop
  | update {plan : Uuid → Ticket → Option (Ticket → Option Ticket)} {k : Uuid} {set : Ticket → Option Ticket}
      {rest : List (Uuid × (Ticket → Option Ticket))} {written : List (Uuid × Ticket)} {old new r : Ticket}
      {entries : List AuditEntry} (free : d.tickets.free i [k] = true) (sees : d.sees i ctx k = some old)
      (set' : set old = some new) :
      Issues d i ctx (.updateTickets plan) ((k, set) :: rest, written) (.stored k ctx.now old new r entries)
  | message {k : Uuid} {body : String} {t : Int} {c : Cursor} {old r : Ticket} {entries : List AuditEntry}
      (free : d.tickets.free i [k] = true) (sees : d.sees i ctx k = some old) :
      Issues d i ctx (.insertMessage k body t) c
        (.stored k ctx.now old (observeMessage ⟨ctx.tenantId, k, body, ctx.actor, t⟩ old) r entries)
  | note {k : Uuid} {body : String} {t : Int} {c : Cursor} {old r : Ticket} {entries : List AuditEntry}
      (free : d.tickets.free i [k] = true) (sees : d.sees i ctx k = some old) :
      Issues d i ctx (.insertNote k body t) c
        (.stored k ctx.now old (observeNote ⟨ctx.tenantId, k, body, ctx.actor, t⟩ old) r entries)
  | ticket {row r : Ticket} {c : Cursor} (admitted : Admitted d i ctx row r) :
      Issues d i ctx (.insertTicket row) c (.opened d.tickets.size r)
  | record {k : Uuid} {entry : Recorded} {t : Int} {c : Cursor} : Issues d i ctx (.record k entry t) c (.recorded k entry t)

/-- A step of `i` from `d` to `d'` makes one lawful change in the views that have `i`. -/
structure Makes (d : Desk ι) (i : ι) (change : Change) (d' : Desk ι) : Prop where
  inside : ∀ S, S i = true → d'.register S = (d.register S).apply change
  outside : ∀ S, S i = false → d'.register S = d.register S
  lawful : ∀ S, S i = true → (d.register S).Lawful d.tickets.size change

def Desk.Coherent (d : Desk ι) : Prop := d.tickets.Follows Evolves

variable {d d' : Desk ι} {i : ι} {ctx : TenantContext} {k : Uuid} {old new r row : Ticket}

private theorem tenant_of_visible (ho : old.visibleTo ctx = true) (hr : r.visibleTo ctx = true) :
    r.tenantId = old.tenantId := by
  simp only [Ticket.visibleTo, decide_eq_true_eq] at ho hr
  rw [ho.1, hr.1]

theorem evolves_of_stored (hs : d.sees i ctx k = some old) (h : Stored d i ctx k old new d' r) : Evolves old r := by
  obtain ⟨entries,he,_⟩ := h.enforced
  exact evolves_of_enforced h.linkage he (tenant_of_visible (Desk.sees_some.mp hs).2 h.visible)

/-- Storing a version of a Ticket is one change. -/
theorem makes_stored (hf : d.tickets.free i [k] = true) (hs : d.sees i ctx k = some old)
    (h : Stored d i ctx k old new d' r) : ∃ entries, Makes d i (.stored k ctx.now old new r entries) d' := by
  obtain ⟨entries,he,rfl⟩ := h.enforced
  have hvis := (Desk.sees_some.mp hs).1
  refine ⟨entries,fun S hi => ?_,fun S hi => ?_,fun S hi => ?_⟩
  · refine Register.mk.injEq .. ▸ ⟨?_,?_⟩
    · funext j
      rw [Table.view_write d.tickets S j hf hvis]
      by_cases hj : j = k <;> simp [Desk.register, hj, hi]
    · rw [Table.scan_inserts]
      simp [Desk.register, hi]
  · refine Register.mk.injEq .. ▸ ⟨?_,?_⟩
    · funext j
      rw [Table.view_write d.tickets S j hf hvis]
      simp [hi]
    · rw [Table.scan_inserts]
      simp [hi]
  · refine .stored ?_ h.linkage he (tenant_of_visible (Desk.sees_some.mp hs).2 h.visible)
    exact (Table.view_of_free d.tickets S k hf hi).trans hvis

private theorem linked_of_admitted (hd : d.Coherent) (h : Admitted d i ctx row r) {S : ι → Bool} (hi : S i = true) :
    (d.register S).Linked r := by
  have hl := h.linkage
  unfold enforceLinkageOnInsert at hl
  split at hl
  · rename_i hsp
    cases hl
    simp [Register.Linked, hsp]
  · rename_i p hsp
    split at hl
    · cases hl
    · rename_i parent hp
      obtain ⟨hsees,hten⟩ := Option.filter_eq_some_iff.mp hp
      obtain ⟨parent',hview,hev⟩ := hd.view Evolves.refl (Desk.sees_some.mp hsees).1 hi
      cases hl
      simp only [Register.Linked, hsp]
      refine ⟨parent',hview,?_,?_,hev.channel.symm,hev.thread.symm⟩
      · rw [hev.tenantId]
        simpa using hten
      · rw [hev.chain]
        rfl

private theorem state_of_admitted (h : Admitted d i ctx row r) : r.state = .opened := by
  have hl := h.linkage
  unfold enforceLinkageOnInsert at hl
  split at hl
  · cases hl
    exact h.born
  · split at hl
    · cases hl
    · cases hl
      exact h.born

/-- The two unique indexes hold in every view that would have the new row. -/
private theorem alone_of_admitted (h : Admitted d i ctx row r) {S : ι → Bool} (hi : S i = true) {r' : Ticket}
    (hv : d.tickets.view S k = some r') : conflicts d.tickets.size r k r' = false := by
  have hk := Table.lt_size_of_view d.tickets S k hv
  have hu := h.unique k hk
  have hb := h.unblocked k hk
  unfold Desk.collides at hu
  unfold Desk.blocks at hb
  cases hp : d.tickets.pending k with
  | none =>
    rw [Table.view_of_unlocked _ _ _ hp] at hv
    rw [Table.visible_of_no_own _ _ _ (by simp [Table.own, hp]), hv] at hu
    exact hu
  | some p =>
    obtain ⟨j,s⟩ := p
    have hown : d.tickets.own j k = some s := (Table.own_eq_some_iff _ _ _).mpr hp
    by_cases hji : j = i
    · subst hji
      cases (Table.view_of_in _ _ _ hp hi).symm.trans hv
      rw [Table.visible_of_own _ _ _ hown] at hu
      exact hu
    · -- held by another: neither version of it is in the way
      simp only [hp, Option.any_some, ne_eq, hji, not_false_eq_true, true_and, decide_eq_false_iff_not, not_or,
        Bool.not_eq_true] at hb
      cases hS : S j with
      | true =>
        cases (Table.view_of_in _ _ _ hp hS).symm.trans hv
        exact hb.1
      | false =>
        rw [Table.view_of_out _ _ _ hp hS] at hv
        simpa [hv] using hb.2

theorem makes_inserted (hd : d.Coherent) (h : Admitted d i ctx row r) :
    Makes d i (.opened d.tickets.size r) { d with tickets := d.tickets.insert i r } where
  inside S hi := by
    refine Register.mk.injEq .. ▸ ⟨?_,rfl⟩
    funext j
    rw [Table.view_insert]
    by_cases hj : j = d.tickets.size <;> simp [Desk.register, hj, hi]
  outside S hi := by
    refine Register.mk.injEq .. ▸ ⟨?_,rfl⟩
    funext j
    rw [Table.view_insert]
    by_cases hj : j = d.tickets.size
    · subst hj
      simp [hi, Table.view_fresh]
    · simp [hj]
  lawful S hi := by
    refine .opened (fun k r' hr => Table.lt_size_of_view d.tickets S k hr) (state_of_admitted h)
      (linked_of_admitted hd h hi) fun k r' hr => alone_of_admitted h hi hr

theorem makes_recorded {entry : Recorded} {t : Int} (hd : d.Coherent) (h : d.hasTicket i ctx k = true) :
    Makes d i (.recorded k entry t) { d with audit := d.audit.insert i (entry.entry k t) } where
  inside S hi := by
    refine Register.mk.injEq .. ▸ ⟨rfl,?_⟩
    rw [Table.scan_insert]
    simp [Desk.register, hi]
  outside S hi := by
    refine Register.mk.injEq .. ▸ ⟨rfl,?_⟩
    rw [Table.scan_insert]
    simp [hi]
  lawful S hi := by
    obtain ⟨r,hr,_⟩ := (Option.any_eq_true _ _).mp h
    obtain ⟨r',hview,_⟩ := hd.view Evolves.refl hr hi
    exact .recorded (by simp [Desk.register, hview])

/-- A turn leaves every view as it was, or makes one lawful change in those of its transaction. -/
theorem makes_of_effect {q : Stmt} {c : Cursor} (hd : d.Coherent) (h : Effect d i ctx q c d') :
    (∀ S, d'.register S = d.register S) ∨ ∃ change, Issues d i ctx q c change ∧ Makes d i change d' := by
  cases h with
  | aside _ ht _ _ ha => exact .inl fun S => by simp [Desk.register, ht, ha]
  | updated hf hs hset hst =>
    obtain ⟨entries,hm⟩ := makes_stored hf hs hst
    exact .inr ⟨_,.update hf hs hset,hm⟩
  | inserted ha => exact .inr ⟨_,.ticket ha,makes_inserted hd ha⟩
  | posted hf hs hst =>
    obtain ⟨entries,hm⟩ := makes_stored hf hs hst
    exact .inr ⟨_,.message hf hs,⟨hm.inside,hm.outside,hm.lawful⟩⟩
  | noted hf hs hst =>
    obtain ⟨entries,hm⟩ := makes_stored hf hs hst
    exact .inr ⟨_,.note hf hs,⟨hm.inside,hm.outside,hm.lawful⟩⟩
  | recorded hh => exact .inr ⟨_,.record,makes_recorded hd hh⟩

private theorem coherent_of_effect {q : Stmt} {c : Cursor} (hd : d.Coherent) (h : Effect d i ctx q c d') :
    d'.Coherent ∧ d.tickets.size ≤ d'.tickets.size := by
  have hstored : ∀ {k old new r d₁}, d.tickets.free i [k] = true → d.sees i ctx k = some old →
      Stored d i ctx k old new d₁ r → d₁.Coherent ∧ d.tickets.size ≤ d₁.tickets.size := by
    intro k old new r d₁ hf hs hst
    have hev := evolves_of_stored hs hst
    obtain ⟨entries,_,rfl⟩ := hst.enforced
    exact ⟨hd.write Evolves.refl Evolves.trans hf (Desk.sees_some.mp hs).1 hev,Nat.le_refl _⟩
  cases h with
  | aside _ ht _ _ _ =>
    rw [Desk.Coherent, ht]
    exact ⟨hd,Nat.le_refl _⟩
  | updated hf hs _ hst => exact hstored hf hs hst
  | inserted _ => exact ⟨Table.Follows.insert hd _ _,Nat.le_succ _⟩
  | posted hf hs hst => exact (hstored hf hs hst :)
  | noted hf hs hst => exact (hstored hf hs hst :)
  | recorded _ => exact ⟨hd,Nat.le_refl _⟩

/-- A step of the server carries every view to a view there was before, or is a turn that makes one
lawful change in the views of its transaction. -/
theorem registers_of_change {known : Desk ι → ι → TenantContext → Stmt → Cursor → Prop} (hd : d.Coherent)
    (h : Changes (deskEngine ι) Desk.world known d d') :
    (d'.Coherent ∧ d.tickets.size ≤ d'.tickets.size) ∧
    ((∃ f : (ι → Bool) → ι → Bool, ∀ S, d'.register S = d.register (f S)) ∨
      ∃ i ctx q c change, known d i ctx q c ∧ Issues d i ctx q c change ∧ Makes d i change d') := by
  have hturn : ∀ {i ctx q c}, known d i ctx q c → Effect d i ctx q c d' →
      (d'.Coherent ∧ d.tickets.size ≤ d'.tickets.size) ∧
      ((∃ f : (ι → Bool) → ι → Bool, ∀ S, d'.register S = d.register (f S)) ∨
        ∃ i ctx q c change, known d i ctx q c ∧ Issues d i ctx q c change ∧ Makes d i change d') := by
    intro i ctx q c hk he
    refine ⟨coherent_of_effect hd he,?_⟩
    rcases makes_of_effect hd he with hsame | ⟨change,hi,hm⟩
    · exact .inl ⟨id,hsame⟩
    · exact .inr ⟨i,ctx,q,c,change,hk,hi,hm⟩
  cases h with
  | commit i =>
    exact ⟨⟨Table.Follows.commit hd i,Nat.le_refl _⟩,.inl ⟨fun S j => j = i || S j,d.register_commit i⟩⟩
  | rollback i =>
    exact ⟨⟨Table.Follows.rollback hd i,Nat.le_refl _⟩,.inl ⟨fun S j => j ≠ i && S j,d.register_rollback i⟩⟩
  | more hk ht => exact hturn hk (effect_of_more ht)
  | answer hk ht => exact hturn hk (effect_of_answer ht)
  | world hw =>
    obtain ⟨clock,users,rfl⟩ := Desk.of_world hw
    exact ⟨⟨hd,Nat.le_refl _⟩,.inl ⟨id,fun _ => rfl⟩⟩

/-- Only a commit changes what is committed. -/
theorem committed_of_change {known : Desk ι → ι → TenantContext → Stmt → Cursor → Prop} (hd : d.Coherent)
    (h : Changes (deskEngine ι) Desk.world known d d') :
    d'.register (fun _ => false) = d.register (fun _ => false) ∨ ∃ i, d' = d.commit i := by
  have hturn : ∀ {i ctx q c}, Effect d i ctx q c d' →
      d'.register (fun _ => false) = d.register (fun _ => false) := by
    intro i ctx q c he
    rcases makes_of_effect hd he with hsame | ⟨change,_,hm⟩
    · exact hsame _
    · exact hm.outside _ rfl
  cases h with
  | commit i => exact .inr ⟨i,rfl⟩
  | rollback i =>
    left
    exact (d.register_rollback i _).trans (by simp only [Bool.and_false])
  | more _ ht => exact .inl (hturn (effect_of_more ht))
  | answer _ ht => exact .inl (hturn (effect_of_answer ht))
  | world hw =>
    obtain ⟨clock,users,rfl⟩ := Desk.of_world hw
    exact .inl rfl

/-- Committed rows evolve from step to step. -/
theorem evolves_of_change {known : Desk ι → ι → TenantContext → Stmt → Cursor → Prop} (hd : d.Coherent)
    (h : Changes (deskEngine ι) Desk.world known d d') (hr : d.tickets.committed k = some r) :
    ∃ r', d'.tickets.committed k = some r' ∧ Evolves r r' := by
  rcases committed_of_change hd h with hsame | ⟨i,rfl⟩
  · have ht := congrArg (Register.tickets · k) hsame
    simp only [Desk.register, Table.view_none] at ht
    exact ⟨r,ht.trans hr,.refl r⟩
  · obtain ⟨r',hr'⟩ : ∃ r', d.tickets.visible i k = some r' := by
      cases ho : d.tickets.own i k with
      | none => exact ⟨r,(Table.visible_of_no_own _ _ _ ho).trans hr⟩
      | some r' => exact ⟨r',Table.visible_of_own _ _ _ ho⟩
    exact ⟨r',hr',hd.visible Evolves.refl hr hr'⟩

/-- What a lawful change keeps is kept in every view by every change of the database. -/
theorem register_of_change {known : Desk ι → ι → TenantContext → Stmt → Cursor → Prop} {I : Register → Prop}
    (hd : d.Coherent) (hI : ∀ S, I (d.register S)) (h : Changes (deskEngine ι) Desk.world known d d')
    (hstep : ∀ b change, I b → b.Lawful d.tickets.size change → I (b.apply change)) (S : ι → Bool) :
    I (d'.register S) := by
  obtain ⟨_,⟨f,hf⟩ | ⟨i,ctx,q,c,change,_,_,hm⟩⟩ := registers_of_change hd h
  · rw [hf]
    exact hI _
  · cases hi : S i with
    | true =>
      rw [hm.inside S hi]
      exact hstep _ _ (hI S) (hm.lawful S hi)
    | false =>
      rw [hm.outside S hi]
      exact hI S

theorem coherent_empty : (Desk.empty : Desk ι).Coherent := by
  intro i k r r' hr
  cases hr

section Runs
variable {ε α Req : Type} {srv : Service deskLanguage ε α TenantContext (Desk ι) Req}
  {ok : Server deskLanguage ε α ι TenantContext (Desk ι) Cursor Req → Move ι Req Event → Prop}
  {s t : Server deskLanguage ε α ι TenantContext (Desk ι) Cursor Req} {acts : List (Move ι Req Event)}

/-- What a lawful change keeps holds of every view of the database, whoever the writers are. -/
theorem register_invariant {I : Register → Prop} (hr : Run (Server.step (deskEngine ι) srv Desk.world) ok s acts t)
    (hd : s.db.Coherent) (h : ∀ S, I (s.db.register S))
    (hstep : ∀ b n change, s.db.tickets.size ≤ n → I b → b.Lawful n change → I (b.apply change)) :
    t.db.Coherent ∧ ∀ S, I (t.db.register S) := by
  refine (hr.invariant (I := fun u => s.db.tickets.size ≤ u.db.tickets.size ∧ u.db.Coherent ∧
    ∀ S, I (u.db.register S)) ⟨Nat.le_refl _,hd,h⟩ fun u m v hu _ hs => ?_).2
  obtain ⟨hsize,hu,hI⟩ := hu
  have hc : v.db = u.db ∨ Changes (deskEngine ι) Desk.world (fun _ _ _ _ _ => True) u.db v.db :=
    changes_of_step hs fun _ _ _ _ _ _ _ _ _ _ => trivial
  rcases hc with heq | hc
  · rw [heq]
    exact ⟨hsize,hu,hI⟩
  · obtain ⟨hv,hgrow⟩ := (registers_of_change hu hc).1
    exact ⟨Nat.le_trans hsize hgrow,hv,register_of_change hu hI hc fun b change => hstep b _ change hsize⟩

/-- A Ticket that is committed stays so, and its later versions follow its earlier ones. -/
theorem evolves_of_run (hr : Run (Server.step (deskEngine ι) srv Desk.world) ok s acts t) (hd : s.db.Coherent)
    (hk : s.db.tickets.committed k = some r) : ∃ r', t.db.tickets.committed k = some r' ∧ Evolves r r' := by
  refine (hr.invariant (I := fun u => u.db.Coherent ∧ ∃ r', u.db.tickets.committed k = some r' ∧ Evolves r r')
    ⟨hd,r,hk,.refl r⟩ fun u m v hu _ hs => ?_).2
  obtain ⟨hu,r',hr',hev⟩ := hu
  have hc : v.db = u.db ∨ Changes (deskEngine ι) Desk.world (fun _ _ _ _ _ => True) u.db v.db :=
    changes_of_step hs fun _ _ _ _ _ _ _ _ _ _ => trivial
  rcases hc with heq | hc
  · rw [heq]
    exact ⟨hu,r',hr',hev⟩
  · obtain ⟨r'',hr'',hev'⟩ := evolves_of_change hu hc hr'
    exact ⟨(registers_of_change hu hc).1.1,r'',hr'',hev.trans _ _ _ hev'⟩

end Runs
end Nivara.Tickets
