import Mathlib.Logic.Relation
import Nivara.Tickets.Register
import Nivara.Tickets.TicketService
import Nivara.Transactions.Alone
import Nivara.Transactions.Triples

/-! The flat conversation lookup. `root_ticket_id` is a copy of what following `spawned_from` to
its end would give, so the Tickets with one root are the Tickets that the links connect. -/
namespace Nivara.Tickets
open Transactions

section Links
variable {α : Type} {parent : α → α → Prop} {root : α → α}

/-- Elements that are linked have the same root, if a child has its parent's. -/
theorem root_eq_of_linked (h : ∀ p k, parent p k → root k = root p) {a b : α} (hab : Relation.EqvGen parent a b) :
    root a = root b := by
  induction hab with
  | rel p k hpk => exact (h p k hpk).symm
  | refl a => rfl
  | symm a b _ ih => exact ih.symm
  | trans a b c _ _ ihab ihbc => exact ihab.trans ihbc

theorem linked_of_descends {a b : α} (h : Relation.ReflTransGen parent a b) : Relation.EqvGen parent a b := by
  induction h with
  | refl => exact .refl a
  | tail _ hpk ih => exact ih.trans _ _ _ (.rel _ _ hpk)

/-- A measure that grows from parent to child grows along every descent. -/
theorem measure_lt_of_descends {m : α → Int} {P : α → Prop} (h : ∀ p k, parent p k → P k → P p ∧ m p < m k) {a b : α}
    (hab : Relation.TransGen parent a b) (hb : P b) : m a < m b := by
  induction hab with
  | single hpk => exact (h _ _ hpk hb).2
  | tail _ hpk ih =>
    obtain ⟨hp,hlt⟩ := h _ _ hpk hb
    exact Int.lt_trans (ih hp) hlt

end Links

namespace Register

def Parent (b : Register) (p k : Uuid) : Prop := ∃ r, b.tickets k = some r ∧ r.spawnedFromTicketId = some p

def Connected (b : Register) (k k' : Uuid) : Prop := Relation.EqvGen b.Parent k k'

/-- Every Ticket's linkage follows from its parent, which is there and older. -/
def Rooted (b : Register) : Prop :=
  ∀ k r, b.tickets k = some r → b.Linked r ∧ ∀ p, r.spawnedFromTicketId = some p → p < k

variable {b : Register} {k p : Uuid} {r : Ticket}

private theorem Linked.mono {b' : Register} {r' : Ticket} (hlater : ∀ k s, b.tickets k = some s →
    ∃ s', b'.tickets k = some s' ∧ Evolves s s') (hr : Evolves r r') (h : b.Linked r) : b'.Linked r' := by
  unfold Linked at h ⊢
  rw [hr.spawnedFrom]
  cases hsp : r.spawnedFromTicketId with
  | none =>
    rw [hsp] at h
    exact hr.root.trans h
  | some p =>
    simp only [hsp] at h ⊢
    obtain ⟨parent,hp,hten,hroot,hch,hth⟩ := h
    obtain ⟨parent',hp',hev⟩ := hlater p parent hp
    refine ⟨parent',hp',?_,?_,?_,?_⟩
    · rw [hev.tenantId, hr.tenantId, hten]
    · rw [hr.root, hroot, hev.chain]
    · rw [hr.channel, hch, hev.channel]
    · rw [hr.thread, hth, hev.thread]

/-- Each Ticket of a register is still there after a lawful change, in a later version. -/
theorem Lawful.later {n : Uuid} {change : Change} (hlaw : b.Lawful n change) (k : Uuid) (s : Ticket)
    (hs : b.tickets k = some s) : ∃ s', (b.apply change).tickets k = some s' ∧ Evolves s s' := by
  cases hlaw with
  | @stored k' now old new r entries hfound hlink henf hten =>
    by_cases hk : k = k'
    · subst hk
      cases hs.symm.trans hfound
      exact ⟨r,Function.update_self ..,evolves_of_enforced hlink henf hten⟩
    · exact ⟨s,(Function.update_of_ne hk ..).trans hs,.refl s⟩
  | opened hfresh _ _ _ =>
    exact ⟨s,(Function.update_of_ne (Nat.ne_of_lt (hfresh k s hs)) ..).trans hs,.refl s⟩
  | recorded _ => exact ⟨s,hs,.refl s⟩

theorem Rooted.apply {n : Uuid} {change : Change} (h : b.Rooted) (hlaw : b.Lawful n change) : (b.apply change).Rooted := by
  have hlater := hlaw.later
  intro k r hr
  cases hlaw with
  | @stored k' now old new s entries hfound hlink henf hten =>
    by_cases hk : k = k'
    · subst hk
      have hev := evolves_of_enforced hlink henf hten
      have heq : s = r := by simpa [Register.apply] using hr
      subst heq
      obtain ⟨hl,hlt⟩ := h k old hfound
      exact ⟨hl.mono hlater hev,fun p hp => hlt p (hev.spawnedFrom ▸ hp)⟩
    · have hr : b.tickets k = some r := (Function.update_of_ne hk ..).symm.trans hr
      obtain ⟨hl,hlt⟩ := h k r hr
      exact ⟨hl.mono hlater (.refl r),hlt⟩
  | @opened s hfresh hborn hlinked _ =>
    by_cases hk : k = n
    · subst hk
      have heq : s = r := by simpa [Register.apply] using hr
      subst heq
      refine ⟨hlinked.mono hlater (.refl s),fun p hp => ?_⟩
      -- the parent is a Ticket of the register already
      unfold Linked at hlinked
      simp only [hp] at hlinked
      obtain ⟨parent,hparent,_⟩ := hlinked
      exact hfresh p parent hparent
    · have hr : b.tickets k = some r := (Function.update_of_ne hk ..).symm.trans hr
      obtain ⟨hl,hlt⟩ := h k r hr
      exact ⟨hl.mono hlater (.refl r),hlt⟩
  | recorded _ =>
    obtain ⟨hl,hlt⟩ := h k r hr
    exact ⟨hl.mono hlater (.refl r),hlt⟩

/-- The origin as the flat column has it; an identifier of no Ticket is its own. -/
def rootOf (b : Register) (k : Uuid) : Uuid := (b.tickets k).elim k (·.chain k)

theorem rootOf_of_ticket (h : b.tickets k = some r) : b.rootOf k = r.chain k := by simp [rootOf, h]

theorem Rooted.rootOf_parent (h : b.Rooted) (hp : b.Parent p k) : b.rootOf k = b.rootOf p := by
  obtain ⟨r,hr,hsp⟩ := hp
  have hl := (h k r hr).1
  unfold Linked at hl
  simp only [hsp] at hl
  obtain ⟨parent,hparent,_,hroot,_⟩ := hl
  rw [rootOf_of_ticket hr, rootOf_of_ticket hparent, Ticket.chain, hroot]
  rfl

theorem Rooted.acyclic (h : b.Rooted) (k : Uuid) : ¬ Relation.TransGen b.Parent k k := by
  intro hk
  have hgrows : ∀ p k, b.Parent p k → True → True ∧ ((p : Int) < k) := by
    rintro p k ⟨r,hr,hp⟩ _
    exact ⟨trivial,Int.ofNat_lt.mpr ((h k r hr).2 p hp)⟩
  exact absurd (measure_lt_of_descends hgrows hk trivial) (Int.lt_irrefl _)

/-- Following `spawned_from` to its end leads to the Ticket that the root column names. -/
theorem Rooted.origin (h : b.Rooted) (k : Uuid) (r : Ticket) (hr : b.tickets k = some r) :
    Relation.ReflTransGen b.Parent (r.chain k) k ∧
      ∃ o, b.tickets (r.chain k) = some o ∧ o.spawnedFromTicketId = none ∧ o.tenantId = r.tenantId := by
  -- by induction on the identifier: a parent has a smaller one
  induction k using Nat.strongRecOn generalizing r with
  | ind k ih =>
    obtain ⟨hl,hlt⟩ := h k r hr
    unfold Linked at hl
    cases hsp : r.spawnedFromTicketId with
    | none =>
      simp only [hsp] at hl
      have hself : r.chain k = k := by simp [Ticket.chain, hl]
      rw [hself]
      exact ⟨.refl,r,hr,hsp,rfl⟩
    | some p =>
      simp only [hsp] at hl
      obtain ⟨parent,hparent,hten,hroot,_⟩ := hl
      have hchain : r.chain k = parent.chain p := by simp [Ticket.chain, hroot]
      rw [hchain]
      obtain ⟨hdesc,o,ho,hnone,hto⟩ := ih p (hlt p hsp) parent hparent
      exact ⟨hdesc.tail ⟨r,hr,hsp⟩,o,ho,hnone,hto.trans hten⟩

/-- The root is null exactly on origins. -/
theorem Rooted.root_none (h : b.Rooted) (hr : b.tickets k = some r) :
    r.rootTicketId = none ↔ r.spawnedFromTicketId = none := by
  have hl := (h k r hr).1
  unfold Linked at hl
  cases hsp : r.spawnedFromTicketId with
  | none =>
    simp only [hsp] at hl
    simp [hl]
  | some p =>
    simp only [hsp] at hl
    obtain ⟨parent,_,_,hroot,_⟩ := hl
    simp [hroot]

theorem Rooted.connected_iff (h : b.Rooted) {k' : Uuid} {r' : Ticket} (hr : b.tickets k = some r)
    (hr' : b.tickets k' = some r') : b.Connected k k' ↔ r'.chain k' = r.chain k := by
  constructor
  · intro hc
    have hroot := root_eq_of_linked (fun _ _ hp => h.rootOf_parent hp) hc
    rw [rootOf_of_ticket hr, rootOf_of_ticket hr'] at hroot
    exact hroot.symm
  · intro hchain
    have ho := linked_of_descends (h.origin k r hr).1
    have ho' := linked_of_descends (h.origin k' r' hr').1
    rw [hchain] at ho'
    exact (ho.symm).trans _ _ _ ho'

/-- Tickets of one chain have one origin, and with it one tenant. -/
theorem Rooted.tenant (h : b.Rooted) {k' : Uuid} {r' : Ticket} (hr : b.tickets k = some r) (hr' : b.tickets k' = some r')
    (hchain : r'.chain k' = r.chain k) : r'.tenantId = r.tenantId := by
  obtain ⟨_,o,ho,_,hto⟩ := h.origin k r hr
  obtain ⟨_,o',ho',_,hto'⟩ := h.origin k' r' hr'
  rw [hchain, ho] at ho'
  cases ho'
  rw [← hto, ← hto']

private theorem Rooted.origin_route (h : b.Rooted) (k : Uuid) (r : Ticket) (hr : b.tickets k = some r) :
    ∃ o, b.tickets (r.chain k) = some o ∧ o.slackChannelId = r.slackChannelId ∧ o.slackThreadTs = r.slackThreadTs := by
  induction k using Nat.strongRecOn generalizing r with
  | ind k ih =>
    obtain ⟨hl,hlt⟩ := h k r hr
    unfold Linked at hl
    cases hsp : r.spawnedFromTicketId with
    | none =>
      simp only [hsp] at hl
      have hself : r.chain k = k := by simp [Ticket.chain, hl]
      rw [hself]
      exact ⟨r,hr,rfl,rfl⟩
    | some p =>
      simp only [hsp] at hl
      obtain ⟨parent,hparent,_,hroot,hch,hth⟩ := hl
      have hchain : r.chain k = parent.chain p := by simp [Ticket.chain, hroot]
      rw [hchain]
      obtain ⟨o,ho,hoc,hot⟩ := ih p (hlt p hsp) parent hparent
      exact ⟨o,ho,hoc.trans hch.symm,hot.trans hth.symm⟩

/-- Tickets of one chain have one route. -/
theorem Rooted.route (h : b.Rooted) {k' : Uuid} {r' : Ticket} (hr : b.tickets k = some r) (hr' : b.tickets k' = some r')
    (hchain : r'.chain k' = r.chain k) : r'.slackChannelId = r.slackChannelId ∧ r'.slackThreadTs = r.slackThreadTs := by
  obtain ⟨o,ho,hoc,hot⟩ := h.origin_route k r hr
  obtain ⟨o',ho',hoc',hot'⟩ := h.origin_route k' r' hr'
  rw [hchain, ho] at ho'
  cases ho'
  exact ⟨hoc'.symm.trans hoc,hot'.symm.trans hot⟩

/-- Only Tickets are connected to a Ticket. -/
theorem Rooted.connected_ticket (h : b.Rooted) {k' : Uuid} (hr : b.tickets k = some r) (hc : b.Connected k k') :
    ∃ r', b.tickets k' = some r' := by
  have hiff : ∀ {a c : Uuid}, Relation.EqvGen b.Parent a c → ((b.tickets a).isSome ↔ (b.tickets c).isSome) := by
    intro a c hac
    induction hac with
    | rel p k hpk =>
      obtain ⟨r,hr,hsp⟩ := hpk
      have hl := (h k r hr).1
      unfold Linked at hl
      simp only [hsp] at hl
      obtain ⟨parent,hparent,_⟩ := hl
      simp [hr, hparent]
    | refl a => rfl
    | symm a c _ ih => exact ih.symm
    | trans a c e _ _ ihac ihce => exact ihac.trans ihce
  exact Option.isSome_iff_exists.mp ((hiff hc).mp (by simp [hr]))

/-- The two halves of the lookup's condition come to having the same root. -/
theorem Rooted.inChainWith_iff (h : b.Rooted) {k' : Uuid} {r' : Ticket} (hr : b.tickets k = some r)
    (hr' : b.tickets k' = some r') : inChainWith k r k' r' = true ↔ r'.chain k' = r.chain k := by
  obtain ⟨_,o,ho,hnone,_⟩ := h.origin k r hr
  have horoot : o.rootTicketId = none := (h.root_none ho).mpr hnone
  simp only [inChainWith, decide_eq_true_eq]
  constructor
  · rintro (hk | hroot)
    · subst hk
      cases hr'.symm.trans ho
      simp [Ticket.chain, horoot]
    · simp [Ticket.chain, hroot]
  · intro hchain
    cases hroot : r'.rootTicketId with
    | none =>
      left
      rw [← hchain]
      simp [Ticket.chain, hroot]
    | some x =>
      right
      rw [← hchain]
      simp [Ticket.chain, hroot]

end Register

section Listing
variable {ι : Type} [DecidableEq ι] {d : Desk ι} {i : ι} {ctx : TenantContext}

theorem Desk.mem_rows {k : Uuid} {r : Ticket} : (k, r) ∈ d.rows i ctx ↔ d.sees i ctx k = some r := by
  simp only [Desk.rows, List.mem_filterMap, List.mem_range, Option.map_eq_some_iff, Prod.mk.injEq]
  constructor
  · rintro ⟨k',_,r',hr',rfl,rfl⟩
    exact hr'
  · intro h
    exact ⟨k,Table.lt_size_of_visible _ _ _ (Desk.sees_some.mp h).1,r,h,rfl,rfl⟩

theorem Desk.rows_nodup : ((d.rows i ctx).map Prod.fst).Nodup := by
  rw [List.Nodup, List.pairwise_map, Desk.rows, List.pairwise_filterMap]
  refine List.nodup_range.imp fun {k k'} hne a ha a' ha' => ?_
  obtain ⟨_,_,rfl⟩ := Option.map_eq_some_iff.mp ha
  obtain ⟨_,_,rfl⟩ := Option.map_eq_some_iff.mp ha'
  exact hne

theorem Desk.picked_nodup {plan : Uuid → Ticket → Option (Ticket → Option Ticket)} :
    ((d.picked i ctx plan).map Prod.fst).Nodup := by
  have hrows : ((d.rows i ctx).map Prod.fst).Nodup := Desk.rows_nodup
  rw [List.Nodup, List.pairwise_map] at hrows
  rw [List.Nodup, List.pairwise_map, Desk.picked, List.pairwise_filterMap]
  refine hrows.imp fun {p p'} hne a ha a' ha' => ?_
  obtain ⟨_,_,rfl⟩ := Option.map_eq_some_iff.mp ha
  obtain ⟨_,_,rfl⟩ := Option.map_eq_some_iff.mp ha'
  exact hne

/-- The rows by primary key are the one row, if it is seen. -/
theorem head_findUnique {k : Uuid} :
    ((d.rows i ctx).filter fun p => decide (p.1 = k)).head?.map Prod.snd = d.sees i ctx k := by
  have hmem : ∀ p ∈ (d.rows i ctx).filter fun p => decide (p.1 = k), d.sees i ctx k = some p.2 := by
    intro p hp
    obtain ⟨hp,hk⟩ := List.mem_filter.mp hp
    rw [← of_decide_eq_true hk]
    exact Desk.mem_rows.mp hp
  cases hl : (d.rows i ctx).filter fun p => decide (p.1 = k) with
  | cons p l => exact (hmem p (by simp [hl])).symm
  | nil =>
    cases hs : d.sees i ctx k with
    | none => rfl
    | some r =>
      have hin : (k, r) ∈ (d.rows i ctx).filter fun p => decide (p.1 = k) :=
        List.mem_filter.mpr ⟨Desk.mem_rows.mpr hs,by simp⟩
      rw [hl] at hin
      cases hin

theorem alone_findUnique {α : Type} {n : Nat} {k : Uuid} {f : Option Ticket → Tx α} :
    (Tx.findUnique k >>= f).alone (deskEngine ι) i ctx (n + 1) d =
      (f (d.sees i ctx k)).alone (deskEngine ι) i ctx (n + 1) d := by
  rw [← head_findUnique]
  rfl

section Rules
variable {α Req : Type} {R : Regime (deskEngine ι) α Req Event Desk.world} {req : Req} {A : Desk ι → Prop}

/-- A read sees the rows as they are while nothing is known of them but what is stable. -/
theorem leads_findMany {picks : Uuid → Ticket → Bool} {Q : List (Uuid × Ticket) → Desk ι → Prop} (hA : R.Stable i A)
    (hQ : ∀ rows, R.Stable i (Q rows)) (h : ∀ d, R.inv d → A d → Q ((d.rows i ctx).filter fun p => picks p.1 p.2) d) :
    R.Leads i req ctx (Tx.findMany picks) A Q := by
  refine Regime.leads_guarded (A := fun _ => A) (fun _ => hA) hQ (fun _ _ h => h) ?_ ?_
  · intro d c d' c' _ _ _ ht
    cases ht
  · intro d c d' a hd hAd _ ht
    cases ht
    exact ⟨hd,h d hd hAd⟩

theorem leads_findFirst {picks : Uuid → Ticket → Bool} {Q : Option (Uuid × Ticket) → Desk ι → Prop}
    (hA : R.Stable i A) (hQ : ∀ a, R.Stable i (Q a))
    (h : ∀ d, R.inv d → A d → Q ((d.rows i ctx).filter fun p => picks p.1 p.2).head? d) :
    R.Leads i req ctx (Tx.findFirst picks) A Q :=
  Regime.leads_bind (leads_findMany hA (fun rows => hQ rows.head?) h) fun _ => Regime.leads_done fun _ _ h => h

theorem leads_findUnique {k : Uuid} {Q : Option Ticket → Desk ι → Prop} (hA : R.Stable i A) (hQ : ∀ a, R.Stable i (Q a))
    (h : ∀ d, R.inv d → A d → Q (d.sees i ctx k) d) : R.Leads i req ctx (Tx.findUnique k) A Q := by
  refine Regime.leads_bind (Q := fun row => Q (row.map Prod.snd)) ?_ fun row => Regime.leads_done fun _ _ h => h
  refine leads_findFirst hA (fun row => hQ _) fun d hd hAd => ?_
  rw [head_findUnique]
  exact h d hd hAd

end Rules

theorem oldestFirst_trans {rank : Uuid → Nat} (a b c : Uuid × Ticket) (hab : oldestFirst rank a b = true)
    (hbc : oldestFirst rank b c = true) : oldestFirst rank a c = true := by
  simp only [oldestFirst, decide_eq_true_eq] at *
  omega

theorem oldestFirst_total {rank : Uuid → Nat} (a b : Uuid × Ticket) :
    (oldestFirst rank a b || oldestFirst rank b a) = true := by
  simp only [oldestFirst, Bool.or_eq_true, decide_eq_true_eq]
  omega

/-- What a conversation read gives in the register `b`, which is what its transaction sees. -/
structure ReadsConversation (b : Register) (d : Desk ι) (i : ι) (ctx : TenantContext) (id : Uuid) (anchor : Ticket)
    (rows : List (Uuid × Ticket)) : Prop where
  once : (rows.map Prod.fst).Nodup
  exactly : ∀ k r, (k, r) ∈ rows ↔ d.sees i ctx k = some r ∧ b.Connected id k
  /-- Nothing of it is hidden from staff. -/
  whole : ctx.actor.isContact = false → ∀ k, b.Connected id k → k ∈ rows.map Prod.fst
  parentsFirst : (∀ p k rp rk, b.Connected id k → b.Parent p k → b.tickets p = some rp → b.tickets k = some rk →
      rp.createdAt < rk.createdAt) →
    ∀ before k after p, rows.map Prod.fst = before ++ k :: after → b.Parent p k → p ∈ rows.map Prod.fst → p ∈ before
  originFirst : (∀ p k rp rk, b.Connected id k → b.Parent p k → b.tickets p = some rp → b.tickets k = some rk →
      rp.createdAt < rk.createdAt) →
    anchor.chain id ∈ rows.map Prod.fst → (rows.map Prod.fst).head? = some (anchor.chain id)

variable {b : Register} {id : Uuid} {anchor : Ticket} {rank : Uuid → Nat}

/-- Creation instants that grow from parent to child grow from the origin to every other Ticket. -/
private theorem origin_older (h : b.Rooted) (ha : b.tickets id = some anchor)
    (hgrow : ∀ p k rp rk, b.Connected id k → b.Parent p k → b.tickets p = some rp → b.tickets k = some rk →
      rp.createdAt < rk.createdAt) {k : Uuid} {r o : Ticket} (hr : b.tickets k = some r) (hc : b.Connected id k)
    (ho : b.tickets (anchor.chain id) = some o) (hne : k ≠ anchor.chain id) : o.createdAt < r.createdAt := by
  have hdesc := (h.origin k r hr).1
  rw [(h.connected_iff ha hr).mp hc] at hdesc
  have htrans : Relation.TransGen b.Parent (anchor.chain id) k :=
    (Relation.reflTransGen_iff_eq_or_transGen.mp hdesc).resolve_left hne
  have hlt := measure_lt_of_descends (m := fun k => (b.tickets k).elim 0 (·.createdAt)) (P := b.Connected id) ?_ htrans hc
  · simpa [ho, hr] using hlt
  · intro p k hpk hk
    have hp : b.Connected id p := hk.trans _ _ _ ((Relation.EqvGen.rel p k hpk).symm)
    obtain ⟨rk,hrk⟩ := h.connected_ticket ha hk
    obtain ⟨rp,hrp⟩ := h.connected_ticket ha hp
    exact ⟨hp,by simpa [hrp, hrk] using hgrow p k rp rk hk hpk hrp hrk⟩

private theorem created_le {a c : Uuid × Ticket} (h : oldestFirst rank a c = true) : a.2.createdAt ≤ c.2.createdAt := by
  simp only [oldestFirst, decide_eq_true_eq] at h
  omega

theorem readsConversation (rank : Uuid → Nat) (h : b.Rooted) (hb : b.tickets = d.tickets.visible i) (ha : d.sees i ctx id = some anchor) :
    ReadsConversation b d i ctx id anchor
      (((d.rows i ctx).filter fun p => inChainWith id anchor p.1 p.2).mergeSort (oldestFirst rank)) := by
  have ticket : ∀ {k r}, d.sees i ctx k = some r → b.tickets k = some r := by
    intro k r hs
    rw [hb]
    exact (Desk.sees_some.mp hs).1
  have hanchor := ticket ha
  have hexact : ∀ k r, (k, r) ∈ ((d.rows i ctx).filter fun p => inChainWith id anchor p.1 p.2).mergeSort (oldestFirst rank) ↔
      d.sees i ctx k = some r ∧ b.Connected id k := by
    intro k r
    rw [List.mem_mergeSort, List.mem_filter, Desk.mem_rows]
    refine and_congr_right fun hs => ?_
    rw [h.inChainWith_iff hanchor (ticket hs), h.connected_iff hanchor (ticket hs)]
  have hsorted : (((d.rows i ctx).filter fun p => inChainWith id anchor p.1 p.2).mergeSort (oldestFirst rank)).Pairwise
      fun a c => oldestFirst rank a c = true := List.pairwise_mergeSort oldestFirst_trans oldestFirst_total _
  have hperm := List.mergeSort_perm ((d.rows i ctx).filter fun p => inChainWith id anchor p.1 p.2) (oldestFirst rank)
  revert hexact hsorted hperm
  generalize ((d.rows i ctx).filter fun p => inChainWith id anchor p.1 p.2).mergeSort (oldestFirst rank) = rows
  intro hexact hsorted hperm
  refine ⟨?_,hexact,fun hstaff k hk => ?_,fun hgrow before k after p hsplit hpk hp => ?_,fun hgrow ho => ?_⟩
  · refine (hperm.map Prod.fst).nodup_iff.mpr ?_
    exact Desk.rows_nodup.sublist (List.filter_sublist.map Prod.fst)
  · obtain ⟨r,hr⟩ := h.connected_ticket hanchor hk
    have hten := h.tenant hanchor hr ((h.connected_iff hanchor hr).mp hk)
    have hctx : anchor.tenantId = ctx.tenantId := by
      have hv := (Desk.sees_some.mp ha).2
      simp only [Ticket.visibleTo, decide_eq_true_eq] at hv
      exact hv.1
    have hreach : ctx.actor.reaches r.contactId = true := by
      cases hact : ctx.actor <;> simp_all [Actor.reaches, Actor.isContact]
    have hs : d.sees i ctx k = some r :=
      Desk.sees_some.mpr ⟨by rw [← hb]; exact hr,by simp [Ticket.visibleTo, hten, hctx, hreach]⟩
    exact List.mem_map.mpr ⟨(k, r),(hexact k r).mpr ⟨hs,hk⟩,rfl⟩
  · -- a parent that came after its child would have been created no earlier
    obtain ⟨l₁,l₂,rfl,rfl,hrest⟩ := List.map_eq_append_iff.mp hsplit
    obtain ⟨⟨k,rk⟩,l₃,rfl,rfl,rfl⟩ := List.map_eq_cons_iff.mp hrest
    rw [List.map_append, List.mem_append] at hp
    rcases hp with hp | hp
    · exact hp
    · obtain ⟨hsk,hck⟩ := (hexact k rk).mp (by simp)
      rcases List.mem_cons.mp hp with rfl | hp
      · exact absurd (.single hpk) (h.acyclic p)
      · obtain ⟨⟨p,rp⟩,hmem,rfl⟩ := List.mem_map.mp hp
        obtain ⟨hsp,_⟩ := (hexact p rp).mp (by simp [hmem])
        have hle := created_le ((List.pairwise_cons.mp (List.pairwise_append.mp hsorted).2.1).1 _ hmem)
        have hlt := hgrow p k rp rk hck hpk (ticket hsp) (ticket hsk)
        simp only at hle
        omega
  · obtain ⟨⟨o,ro⟩,hmem,ho⟩ := List.mem_map.mp ho
    subst ho
    cases rows with
    | nil => cases hmem
    | cons first rest =>
      obtain ⟨k,rk⟩ := first
      obtain ⟨hso,_⟩ := (hexact _ ro).mp hmem
      obtain ⟨hsk,hck⟩ := (hexact k rk).mp (by simp)
      by_cases hk : k = anchor.chain id
      · simp [hk]
      · rcases List.mem_cons.mp hmem with heq | hin
        · cases heq
          simp
        · have hle := created_le ((List.pairwise_cons.mp hsorted).1 _ hin)
          have hlt := origin_older h hanchor hgrow (ticket hsk) hck (ticket hso) hk
          simp only at hle
          omega

structure FlatRoots (b : Register) : Prop where
  acyclic : ∀ k, ¬ Relation.TransGen b.Parent k k
  origin : ∀ k r, b.tickets k = some r → Relation.ReflTransGen b.Parent (r.chain k) k ∧
    ∃ o, b.tickets (r.chain k) = some o ∧ o.spawnedFromTicketId = none
  rootNull : ∀ k r, b.tickets k = some r → (r.rootTicketId = none ↔ r.spawnedFromTicketId = none)

theorem rooted_of_change {known : Desk ι → ι → TenantContext → Stmt → Cursor → Prop} {d' : Desk ι} (hd : d.Coherent)
    (h : ∀ S, (d.register S).Rooted) (hc : Changes (deskEngine ι) Desk.world known d d') (S : ι → Bool) :
    (d'.register S).Rooted := register_of_change hd h hc (fun _ _ hb hlaw => hb.apply hlaw) S

section Runs
variable {ε α Req : Type} {srv : Service deskLanguage ε α TenantContext (Desk ι) Req}
  {ok : Server deskLanguage ε α ι TenantContext (Desk ι) Cursor Req → Move ι Req Event → Prop}
  {s : Server deskLanguage ε α ι TenantContext (Desk ι) Cursor Req} {acts : List (Move ι Req Event)}

theorem rooted_of_run (hr : Run (Server.step (deskEngine ι) srv Desk.world) ok (Server.initial Desk.empty) acts s)
    (S : ι → Bool) : (s.db.register S).Rooted := by
  refine (register_invariant (I := Register.Rooted) hr coherent_empty ?_ fun b n change _ h hlaw => h.apply hlaw).2 S
  intro S k r hr
  cases hr

/-- In every state that any writers can bring about, the roots are the ends of the links, and the
flat lookup of any Ticket gives its whole conversation. -/
theorem conversation_of_run
    (hr : Run (Server.step (deskEngine ι) srv Desk.world) ok (Server.initial Desk.empty) acts s) :
    (∀ S, FlatRoots (s.db.register S)) ∧ ∀ i ctx rank id n,
      (s.db.sees i ctx id = none → (conversation rank id).alone (deskEngine ι) i ctx (n + 1) s.db =
        some (s.db.rollback i, .error (some (AppException.notFound "Ticket")))) ∧
      ∀ anchor, s.db.sees i ctx id = some anchor → ∃ rows,
        (conversation rank id).alone (deskEngine ι) i ctx (n + 1) s.db = some (s.db.commit i, .ok rows) ∧
        ReadsConversation (s.db.register fun j => j = i) s.db i ctx id anchor rows := by
  refine ⟨fun S => ?_,fun i ctx rank id n => ⟨fun hnone => ?_,fun anchor ha => ?_⟩⟩
  · have h := rooted_of_run hr S
    refine ⟨h.acyclic,fun k r hr => ?_,fun k r hr => h.root_none hr⟩
    obtain ⟨hdesc,o,ho,hnone,_⟩ := h.origin k r hr
    exact ⟨hdesc,o,ho,hnone⟩
  · rw [conversation, alone_findUnique, hnone]
    rfl
  · refine ⟨_,?_,readsConversation rank (rooted_of_run hr _) ?_ ha⟩
    · rw [conversation, alone_findUnique, ha]
      rfl
    · rw [Desk.register_tickets, Table.visible_eq_view]

end Runs
end Listing

/-- A Ticket that is resolved and closed by the transaction that opens it, and a second one that is
spawned from it under a root of the writer's own making. -/
private def respawning : Work SqlState Unit :=
  ⟨1, .system, .exec .insertContact fun
    | .error e => .fail e
    | .ok c => .exec (.insertTicket (.fresh 1 "printer" c .portal none none 0)) fun _ =>
      .exec (.updateTickets fun _ _ => some fun r => some { r with state := .resolved }) fun _ =>
      .exec (.updateTickets fun _ _ => some fun r => some { r with state := .closed }) fun _ =>
      .exec (.insertTicket { Ticket.fresh 1 "printer" c .portal (some 0) none 5 with rootTicketId := some 7 }) fun _ =>
      .done ()⟩

theorem conversation_of_respawned :
    ∃ (s : Server deskLanguage SqlState Unit Bool TenantContext (Desk Bool) Cursor (Work SqlState Unit))
      (anchor : Ticket) (rows : List (Uuid × Ticket)),
      s.db.sees false ⟨1, .user 3, 9⟩ 1 = some anchor ∧ anchor.rootTicketId = some 0 ∧
      FlatRoots (s.db.register fun _ => false) ∧
      (conversation id 1).alone (deskEngine Bool) false ⟨1, .user 3, 9⟩ 1 s.db = some (s.db.commit false, .ok rows) ∧
      ReadsConversation (s.db.register fun j => j = false) s.db false ⟨1, .user 3, 9⟩ 1 anchor rows := by
  have hrun : (exec (Server.step (deskEngine Bool) (workService Bool SqlState Unit) Desk.world) Always
      (Server.initial Desk.empty) (.begin true respawning :: List.replicate 13 (.advance true))).any (fun s =>
        (s.db.sees false ⟨1, .user 3, 9⟩ 1).any (·.rootTicketId = some 0)) = true := by
    decide +kernel
  obtain ⟨s,hs,hany⟩ := exec_any hrun
  obtain ⟨anchor,ha,hroot⟩ := (Option.any_eq_true _ _).mp hany
  obtain ⟨hflat,hread⟩ := conversation_of_run hs
  obtain ⟨rows,halone,hrows⟩ := (hread false ⟨1, .user 3, 9⟩ id 1 0).2 anchor ha
  exact ⟨s,anchor,rows,ha,by simpa using hroot,hflat _,halone,hrows⟩

end Nivara.Tickets
