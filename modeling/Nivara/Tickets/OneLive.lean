import Nivara.Tickets.Replies
import Nivara.Tickets.Services

/-! At most one Ticket of a conversation is live, and at most one on a Slack thread. Two partial
unique indexes hold new Tickets to it, and what they index is immutable. Replies that come upon a
closed conversation together therefore end on one new Ticket, or fail. -/
namespace Nivara.Tickets
open Transactions

theorem conflicts_comm (k : Uuid) (r : Ticket) (k' : Uuid) (r' : Ticket) : conflicts k r k' r' = conflicts k' r' k r := by
  have hchain : sharesChain k r k' r' = sharesChain k' r' k r := by
    simp only [sharesChain, decide_eq_decide]
    constructor
    · rintro ⟨h,h',ht,hc⟩
      exact ⟨h',h,ht.symm,hc.symm⟩
    · rintro ⟨h,h',ht,hc⟩
      exact ⟨h',h,ht.symm,hc.symm⟩
  have hthread : sharesThread r r' = sharesThread r' r := by
    simp only [sharesThread, decide_eq_decide]
    constructor
    · rintro ⟨h,h',ht,hs,hc,hth⟩
      exact ⟨h',h,ht.symm,hth ▸ hs,hc.symm,hth.symm⟩
    · rintro ⟨h,h',ht,hs,hc,hth⟩
      exact ⟨h',h,ht.symm,hth ▸ hs,hc.symm,hth.symm⟩
  rw [conflicts, conflicts, hchain, hthread]

/-- A later version is in no index that the earlier one was not in. -/
theorem conflicts_of_later {old r : Ticket} (hev : Evolves old r) {k k' : Uuid} {r' : Ticket}
    (h : conflicts k r k' r' = true) : conflicts k old k' r' = true := by
  have hlive : r.isLive = true → old.isLive = true := by
    simp only [Ticket.isLive, decide_eq_true_eq]
    exact fun hl hc => hl (hev.closed hc).1
  simp only [conflicts, sharesChain, sharesThread, Bool.or_eq_true, decide_eq_true_eq] at h ⊢
  rw [hev.tenantId, hev.chain, hev.channel, hev.thread] at h
  rcases h with ⟨hl,h⟩ | ⟨hl,h⟩
  · exact .inl ⟨hlive hl,h⟩
  · exact .inr ⟨hlive hl,h⟩

namespace Register
variable {b : Register}

/-- No two Tickets are in one of the unique indexes under the same key. -/
def Single (b : Register) : Prop :=
  ∀ k k' r r', b.tickets k = some r → b.tickets k' = some r' → k ≠ k' → conflicts k r k' r' = false

private theorem single_update {k : Uuid} {r : Ticket} (h : b.Single)
    (hr : ∀ k' r', b.tickets k' = some r' → k' ≠ k → conflicts k r k' r' = false) :
    ∀ j j' s s', Function.update b.tickets k (some r) j = some s → Function.update b.tickets k (some r) j' = some s' →
      j ≠ j' → conflicts j s j' s' = false := by
  intro j j' s s' hs hs' hne
  by_cases hj : j = k
  · subst hj
    have hrs : r = s := by simpa using hs
    subst hrs
    exact hr j' s' ((Function.update_of_ne (Ne.symm hne) ..).symm.trans hs') (Ne.symm hne)
  · have hold : b.tickets j = some s := (Function.update_of_ne hj ..).symm.trans hs
    by_cases hj' : j' = k
    · subst hj'
      have hrs : r = s' := by simpa using hs'
      subst hrs
      rw [conflicts_comm]
      exact hr j s hold hne
    · exact h j j' s s' hold ((Function.update_of_ne hj' ..).symm.trans hs') hne

theorem Single.apply {n : Uuid} {change : Change} (h : b.Single) (hlaw : b.Lawful n change) : (b.apply change).Single := by
  cases hlaw with
  | @stored k now old new r entries hfound hlink henf hten =>
    refine single_update h fun k' r' hr' hne => ?_
    have hev := evolves_of_enforced hlink henf hten
    exact Bool.eq_false_iff.mpr fun hc =>
      Bool.false_ne_true ((h k k' old r' hfound hr' (Ne.symm hne)).symm.trans (conflicts_of_later hev hc))
  | opened _ _ _ halone => exact single_update h fun k' r' hr' _ => halone k' r' hr'
  | recorded _ => exact h

/-- At most one live Ticket for each chain and for each Slack route of a tenant. -/
structure OneLive (b : Register) : Prop where
  chain : ∀ k k' r r', b.tickets k = some r → b.tickets k' = some r' → r.isLive = true → r'.isLive = true →
    r.chain k = r'.chain k' → k = k'
  route : ∀ k k' r r', b.tickets k = some r → b.tickets k' = some r' → r.isLive = true → r'.isLive = true →
    r.tenantId = r'.tenantId → r.slackThreadTs.isSome = true → r.slackChannelId = r'.slackChannelId →
    r.slackThreadTs = r'.slackThreadTs → k = k'

theorem Single.oneLive (h : b.Single) (hrooted : b.Rooted) : b.OneLive where
  chain k k' r r' hr hr' hl hl' hc := by
    by_contra hne
    have hfalse := h k k' r r' hr hr' hne
    simp [conflicts, sharesChain, hl, hl', hc, hrooted.tenant hr' hr hc] at hfalse
  route k k' r r' hr hr' hl hl' ht hs hch hth := by
    by_contra hne
    have hfalse := h k k' r r' hr hr' hne
    rw [hth] at hs
    simp [conflicts, sharesThread, hl, hl', ht, hs, hch, hth] at hfalse

end Register

/-- Neither index has a key twice, whoever the writers are. -/
theorem single_of_run {ι ε α Req : Type} [DecidableEq ι] {srv : Service deskLanguage ε α TenantContext (Desk ι) Req}
    {ok : Server deskLanguage ε α ι TenantContext (Desk ι) Cursor Req → Move ι Req Event → Prop}
    {s : Server deskLanguage ε α ι TenantContext (Desk ι) Cursor Req} {acts : List (Move ι Req Event)}
    (hr : Run (Server.step (deskEngine ι) srv Desk.world) ok (Server.initial Desk.empty) acts s) (S : ι → Bool) :
    (s.db.register S).Single := by
  refine (register_invariant (I := Register.Single) hr coherent_empty ?_ fun b n change _ h hlaw => h.apply hlaw).2 S
  intro S k k' r r' hr
  cases hr

def Stmt.KeepsContact : Stmt → Prop
  | .updateTickets plan => ∀ k r set old new, plan k r = some set → set old = some new → new.contactId = old.contactId
  | _ => True

/-- A transaction that changes no Ticket's Contact, as none of the services does. -/
def Work.KeepsContact (work : Work Failure (Option ContactReply)) : Prop := work.script.Only Stmt.KeepsContact

section Contacts
variable {ι : Type} [DecidableEq ι] {d d' : Desk ι} {i : ι} {ctx : TenantContext} {k : Uuid}

def Akin (r r' : Ticket) : Prop := r'.contactId = r.contactId ∧ r'.spawnedFromTicketId = r.spawnedFromTicketId

/-- Where the versions of the rows come from: all from versions that are akin, or one is new. -/
def ComesFrom (d d' : Desk ι) : Prop :=
  (∀ k r', d'.tickets.Version k r' → ∃ r, d.tickets.Version k r ∧ Akin r r') ∨
  ∃ r₁, ∀ k r', d'.tickets.Version k r' → (k = d.tickets.size ∧ r' = r₁) ∨ d.tickets.Version k r'

private theorem comesFrom_of_versions (h : ∀ k r, d'.tickets.Version k r → d.tickets.Version k r) : ComesFrom d d' :=
  .inl fun k r hv => ⟨r,h k r hv,rfl,rfl⟩

private theorem comesFrom_stored {old new r : Ticket} (hf : d.tickets.free i [k] = true)
    (hs : d.sees i ctx k = some old) (hst : Stored d i ctx k old new d' r) (hnew : new.contactId = old.contactId) :
    ComesFrom d d' := by
  have hev := evolves_of_stored hs hst
  obtain ⟨entries,he,rfl⟩ := hst.enforced
  left
  rintro j s (hc | ⟨i',ho⟩)
  · exact ⟨s,.inl hc,rfl,rfl⟩
  · by_cases hi : i' = i
    · subst hi
      rcases Table.own_write_cases _ _ _ ho with ⟨_,hk,_,_,hsr⟩ | ho
      · rw [List.mem_singleton.mp hk]
        refine ⟨old,.of_visible (Desk.sees_some.mp hs).1,?_,?_⟩
        · rw [hsr, (enforced_of_ok he).rest]
          exact hnew
        · rw [hsr]
          exact hev.spawnedFrom
      · exact ⟨s,.inr ⟨i',ho⟩,rfl,rfl⟩
    · rw [Table.own_write_other _ _ _ _ hi hf] at ho
      exact ⟨s,.inr ⟨i',ho⟩,rfl,rfl⟩

private theorem comesFrom_of_effect {q : Stmt} {c : Cursor} (he : Effect d i ctx q c d')
    (hplan : ∀ plan, q = .updateTickets plan → ∀ x ∈ c.1, ∀ old new, x.2 old = some new → new.contactId = old.contactId) :
    ComesFrom d d' := by
  cases he with
  | aside _ ht _ _ _ => exact comesFrom_of_versions fun k r hv => by rwa [ht] at hv
  | @updated plan k set rest written old new r d' hf hs hset hst =>
    exact comesFrom_stored hf hs hst (hplan plan rfl (k, set) (by simp) old new hset)
  | @inserted row r c _ => exact .inr ⟨r,fun k r' hv => hv.of_insert⟩
  | posted hf hs hst => exact (comesFrom_stored hf hs hst rfl :)
  | noted hf hs hst => exact (comesFrom_stored hf hs hst rfl :)
  | recorded _ => exact comesFrom_of_versions fun _ _ hv => hv

private theorem comesFrom_of_change {α Req : Type} {T : Terms (deskEngine ι) α Req}
    (hc : Changes (deskEngine ι) Desk.world (T.Knows Stmt.KeepsContact) d d') : ComesFrom d d' := by
  have hplan : ∀ {i ctx q c}, T.Knows Stmt.KeepsContact d i ctx q c → ∀ plan, q = .updateTickets plan →
      ∀ x ∈ Prod.fst (α := List _) c, ∀ old new, x.2 old = some new → new.contactId = old.contactId := by
    rintro i ctx q c ⟨hq,hreach,_⟩ plan rfl x hx old new hnew
    obtain ⟨r,hr⟩ := planned_of_reaches hreach x hx
    exact hq x.1 r x.2 old new hr hnew
  cases hc with
  | commit i => exact comesFrom_of_versions fun _ _ hv => hv.of_commit
  | rollback i => exact comesFrom_of_versions fun _ _ hv => hv.of_rollback
  | more hk ht => exact comesFrom_of_effect (effect_of_more ht) (hplan hk)
  | answer hk ht => exact comesFrom_of_effect (effect_of_answer ht) (hplan hk)
  | world hw =>
    obtain ⟨clock,users,rfl⟩ := Desk.of_world hw
    exact comesFrom_of_versions fun _ _ hv => hv

structure StaysAkin (d₀ d : Desk ι) : Prop where
  coherent : d.Coherent
  size : d₀.tickets.size ≤ d.tickets.size
  akin : ∀ k r r', d₀.tickets.Version k r → d.tickets.Version k r' → Akin r r'

private theorem staysAkin_of_change {d₀ : Desk ι} {α Req : Type} {T : Terms (deskEngine ι) α Req}
    (h : StaysAkin d₀ d) (hc : Changes (deskEngine ι) Desk.world (T.Knows Stmt.KeepsContact) d d') :
    StaysAkin d₀ d' := by
  obtain ⟨hcoh,hsize⟩ := (registers_of_change h.coherent hc).1
  refine ⟨hcoh,Nat.le_trans h.size hsize,fun k r r' hr hr' => ?_⟩
  rcases comesFrom_of_change hc with hfrom | ⟨r₁,hfrom⟩
  · obtain ⟨s,hs,hsr⟩ := hfrom k r' hr'
    have hrs := h.akin k r s hr hs
    exact ⟨hsr.1.trans hrs.1,hsr.2.trans hrs.2⟩
  · rcases hfrom k r' hr' with ⟨hk,_⟩ | hr'
    · have hlt := hr.lt_size
      have hle := h.size
      omega
    · exact h.akin k r r' hr hr'

private theorem uniform_of_change {α Req : Type} {T : Terms (deskEngine ι) α Req} (hd : StaysAkin d d)
    (hc : Changes (deskEngine ι) Desk.world (T.Knows Stmt.KeepsContact) d d') : StaysAkin d' d' := by
  refine ⟨(registers_of_change hd.coherent hc).1.1,Nat.le_refl _,fun k r r' hr hr' => ?_⟩
  rcases comesFrom_of_change hc with hfrom | ⟨r₁,hfrom⟩
  · obtain ⟨s,hs,hsr⟩ := hfrom k r hr
    obtain ⟨s',hs',hsr'⟩ := hfrom k r' hr'
    have hss := hd.akin k s s' hs hs'
    exact ⟨hsr'.1.trans (hss.1.trans hsr.1.symm),hsr'.2.trans (hss.2.trans hsr.2.symm)⟩
  · rcases hfrom k r hr with ⟨hk,rfl⟩ | hold
    · rcases hfrom k r' hr' with ⟨_,rfl⟩ | hold'
      · exact ⟨rfl,rfl⟩
      · exact absurd hold'.lt_size (by omega)
    · rcases hfrom k r' hr' with ⟨hk,_⟩ | hold'
      · exact absurd hold.lt_size (by omega)
      · exact hd.akin k r r' hold hold'

end Contacts

section Scripts

private theorem keepsContact_of_plain {at' : Int} {q : Stmt} (h : q.Plain at') : q.KeepsContact := by
  cases q with
  | updateTickets plan =>
    intro k r set old new hset hnew
    rw [h k r set old new hset hnew]
  | _ => trivial

/-- No request changes a Ticket's Contact. -/
theorem keepsContact_of_request (req : Request Work.KeepsContact) : req.script.Only Stmt.KeepsContact := by
  cases req with
  | reply principal k body source t => exact (plain_repertoire.reply.mono fun _ => keepsContact_of_plain).bind fun _ => trivial
  | openThread principal message t => exact (plain_repertoire.openThread.mono fun _ => keepsContact_of_plain).bind fun _ => trivial
  | other work hwork => exact hwork

end Scripts
/-- The server whose writers are replies, threads opened from Slack, and any transactions that
change no Ticket's Contact. -/
abbrev DeskServer (ι : Type) :=
  Server deskLanguage Failure (Option ContactReply) ι TenantContext (Desk ι) Cursor (Request Work.KeepsContact)

abbrev deskStep (ι : Type) [DecidableEq ι] :
    DeskServer ι → Move ι (Request Work.KeepsContact) Event → Option (DeskServer ι) :=
  Server.step (deskEngine ι) (requestService ι Work.KeepsContact) Desk.world

section Runs
variable {ι : Type} [DecidableEq ι] {s s' t : DeskServer ι} {i : ι} {k p : Uuid} {r : Ticket}
  {acts acts' : List (Move ι (Request Work.KeepsContact) Event)}

private theorem admitted_of_effect {d d' : Desk ι} {j : ι} {ctx : TenantContext} {q : Stmt} {c : Cursor}
    (he : Effect d j ctx q c d') (hk : d.tickets.size ≤ k) (ho : d'.tickets.own i k = some r) :
    j = i ∧ ∃ row, Admitted d i ctx row r ∧ d' = { d with tickets := d.tickets.insert i r } := by
  have hlt : k < d'.tickets.size := Table.lt_size_of_own _ _ _ ho
  have hstored : ∀ {k' old new r₁ d₁}, Stored d j ctx k' old new d₁ r₁ → d₁.tickets.size = d.tickets.size := by
    intro k' old new r₁ d₁ hst
    obtain ⟨entries,_,rfl⟩ := hst.enforced
    rfl
  cases he with
  | aside _ ht _ _ _ => exact absurd (ht ▸ hlt) (Nat.not_lt.mpr hk)
  | updated _ _ _ hst => exact absurd (hstored hst ▸ hlt) (Nat.not_lt.mpr hk)
  | @inserted row r₁ c hadm =>
    rcases Table.own_insert_cases _ _ _ _ ho with ⟨_,rfl,rfl⟩ | ho
    · exact ⟨rfl,row,hadm,rfl⟩
    · exact absurd (Table.lt_size_of_own _ _ _ ho) (Nat.not_lt.mpr hk)
  | posted _ _ hst => exact absurd ((hstored hst ▸ hlt :)) (Nat.not_lt.mpr hk)
  | noted _ _ hst => exact absurd ((hstored hst ▸ hlt :)) (Nat.not_lt.mpr hk)
  | recorded _ => exact absurd hlt (Nat.not_lt.mpr hk)

/-- A new Ticket of a Contact's transaction, and the parent it names, are that Contact's. -/
private theorem kin_of_admitted {d : Desk ι} {ctx : TenantContext} {row : Ticket} {c : Uuid} (h : Admitted d i ctx row r)
    (hc : ctx.actor = .contact c) (hp : r.spawnedFromTicketId = some p) :
    r.contactId = c ∧ ∃ rp, d.tickets.visible i p = some rp ∧ rp.contactId = c := by
  have hown : ∀ {r : Ticket}, r.visibleTo ctx = true → r.contactId = c := by
    intro r hv
    simp only [Ticket.visibleTo, hc, Actor.reaches, decide_eq_true_eq] at hv
    exact hv.2
  refine ⟨hown h.visible,?_⟩
  have hl := h.linkage
  unfold enforceLinkageOnInsert at hl
  split at hl
  · rename_i hsp
    cases hl
    rw [hsp] at hp
    cases hp
  · rename_i p' hsp
    split at hl
    · cases hl
    · rename_i parent hparent
      cases hl
      cases hsp.symm.trans hp
      obtain ⟨hsees,_⟩ := Option.filter_eq_some_iff.mp hparent
      exact ⟨parent,(Desk.sees_some.mp hsees).1,hown (Desk.sees_some.mp hsees).2⟩

private theorem kin_of_step {x : Session deskLanguage Failure (Option ContactReply) TenantContext Cursor (Request Work.KeepsContact)}
    {c : Uuid} (hx : s.sessions i = some x) (hc : x.ctx.actor = .contact c) (hs : deskStep ι s (.advance i) = some s')
    (hk : s.db.tickets.size ≤ k) (ho : s'.db.tickets.own i k = some r) (hp : r.spawnedFromTicketId = some p) :
    r.contactId = c ∧ ∃ rp, s'.db.tickets.visible i p = some rp ∧ rp.contactId = c := by
  have hturn : ∀ {j ctx q c'}, (j = i ∧ ctx = x.ctx) → Effect s.db j ctx q c' s'.db →
      r.contactId = c ∧ ∃ rp, s'.db.tickets.visible i p = some rp ∧ rp.contactId = c := by
    rintro j ctx q c' ⟨rfl,rfl⟩ he
    obtain ⟨_,row,hadm,hdb⟩ := admitted_of_effect he hk ho
    obtain ⟨hr,rp,hrp,hcp⟩ := kin_of_admitted hadm hc hp
    refine ⟨hr,rp,?_,hcp⟩
    rw [hdb, Table.visible_eq_view, Table.view_insert, if_neg (Nat.ne_of_lt (Table.lt_size_of_visible _ _ _ hrp)),
      ← Table.visible_eq_view]
    exact hrp
  have hch : s'.db = s.db ∨ Changes (deskEngine ι) Desk.world (fun _ j ctx _ _ => j = i ∧ ctx = x.ctx) s.db s'.db := by
    refine changes_of_step hs ?_
    intro j y q next k hm hy _ _ _
    cases hm
    cases hx.symm.trans hy
    exact ⟨rfl,rfl⟩
  rcases hch with heq | hch
  · rw [heq] at ho
    exact absurd (Table.lt_size_of_own _ _ _ ho) (Nat.not_lt.mpr hk)
  · generalize hd' : s'.db = d' at *
    cases hch with
    | commit j => exact absurd (Table.lt_size_of_own _ _ _ ho) (Nat.not_lt.mpr hk)
    | rollback j => exact absurd (Table.lt_size_of_own _ _ _ ho) (Nat.not_lt.mpr hk)
    | more hk' ht => exact hturn hk' (effect_of_more ht)
    | answer hk' ht => exact hturn hk' (effect_of_answer ht)
    | world hw =>
      obtain ⟨clock,users,rfl⟩ := Desk.of_world hw
      exact absurd (Table.lt_size_of_own _ _ _ ho) (Nat.not_lt.mpr hk)

private theorem upright_of_run (hr : Run (deskStep ι) Always (Server.initial Desk.empty) acts s) :
    Upright (fun _ => False) s.db :=
  ⟨(register_invariant (I := fun _ => True) hr coherent_empty (fun _ => trivial) fun _ _ _ _ _ _ => trivial).1,
    rooted_of_run hr,fun _ h => h.elim⟩

/-- The Tickets that are closed in `s` are closed and there in every later state. -/
private theorem upright_from (h : Upright (fun _ => False) s.db) (hr : Run (deskStep ι) Always s acts t)
    (ht : Upright (fun _ => False) t.db) :
    Upright (fun k => ∃ r, s.db.tickets.committed k = some r ∧ r.state = .closed) t.db := by
  refine ⟨ht.coherent,ht.rooted,fun k hk => ?_⟩
  obtain ⟨r,hr',hclosed⟩ := hk
  obtain ⟨r',hr'',hev⟩ := evolves_of_run hr h.coherent hr'
  exact ⟨r',hr'',(hev.closed hclosed).1⟩

/-- A reply that has begun after `u` and commits has landed on none of the Tickets `K`. -/
private theorem landed_of_commit {u v v' : DeskServer ι} {K : Uuid → Prop} {principal : ContactPrincipal} {k₀ : Uuid}
    {body : String} {source : TicketSource} {at' : Int} {a : Option ContactReply}
    (hr : Run (deskStep ι) Always (Server.initial Desk.empty) acts u) (hu : Upright K u.db) (hidle : u.sessions i = none)
    (hrun : Run (deskStep ι) Always u acts' v) (hs : deskStep ι v (.advance i) = some v')
    (hans : v'.answers = v.answers ++ [(.reply principal k₀ body source at', a)]) :
    v'.db = v.db.commit i ∧ ∃ y, a = some y ∧ Landed false K i k₀ y.ticketId y.messageId y.message v.db := by
  have hsafe : ∀ {who K} (i : ι) d (req : Request Work.KeepsContact), True →
      (replyRegime false who K Work.KeepsContact).Safe i req (req.context d) req.script (Blank i) :=
    fun i d req _ => safe_request (fun h => by cases h) i d req
  have hcovered : (replyRegime false (fun _ => False) (fun _ => False) Work.KeepsContact).Covered u :=
    Regime.covered_of_run (fun i d req _ => hsafe i d req trivial) upright_empty (fun _ => ⟨fun _ => rfl,fun _ => rfl⟩)
      (hr.mono fun s m _ => admits_unwatched s m)
  have hv : (replyRegime false (fun j => j = i) K Work.KeepsContact).Covered v := by
    refine hrun.invariant (covered_from hcovered hu hidle) fun s m s' hcov _ hst => ?_
    exact Regime.covered_step (fun i d req _ => hsafe i d req trivial) hcov (admits_unwatched s m) hst
  rcases committed_of_step hs with ⟨hsame,_⟩ | ⟨j,x,b,hm,hx,hscript,hl,hdb,hans'⟩
  · simp [hsame] at hans
  · cases hm
    obtain ⟨hreq,rfl⟩ : x.req = .reply principal k₀ body source at' ∧ b = a := by simpa [hans'] using hans
    obtain ⟨_,hpost⟩ := Regime.post_of_commit hv (admits_unwatched v _) hx hscript hl rfl
    rw [hreq] at hpost
    exact ⟨hdb,hpost⟩

private theorem staysAkin_of_run (hr : Run (deskStep ι) Always (Server.initial Desk.empty) acts s)
    (hr' : Run (deskStep ι) Always s acts' t) : StaysAkin s.db t.db := by
  let T : Terms (deskEngine ι) (Option ContactReply) (Request Work.KeepsContact) := .any
  have hany : ∀ (s : DeskServer ι) (m : Move ι (Request Work.KeepsContact) Event), T.admits s m = true :=
    Terms.admits_of_all (E := deskEngine ι) (fun _ _ => rfl) (fun _ _ _ _ _ _ => rfl) fun _ _ _ _ _ => rfl
  have hstart : (Server.initial Desk.empty : DeskServer ι).Disciplined (deskEngine ι) Stmt.KeepsContact :=
    disciplined_initial _
  have hself : StaysAkin s.db s.db := by
    refine db_invariant (T := T) (I := fun d => StaysAkin d d) keepsContact_of_request hstart (hr.mono fun s m _ => hany s m)
      ⟨coherent_empty,Nat.le_refl _,?_⟩ fun d d' h hc => uniform_of_change h hc
    rintro k r r' (hc | ⟨i,ho⟩)
    · cases hc
    · cases ho
  exact db_invariant (T := T) keepsContact_of_request (disciplined_of_run keepsContact_of_request hstart hr)
    (hr'.mono fun s m _ => hany s m) hself fun d d' h hc => staysAkin_of_change h hc

def Spawned (s t : DeskServer ι) (c k : Uuid) : Prop :=
  s.db.tickets.committed k = none ∧ ∃ r, t.db.tickets.committed k = some r ∧ r.chain k = c

/-- What any writers leave of the conversations in a state that they can bring about. -/
structure Conversations (s : DeskServer ι) : Prop where
  oneLive : ∀ S, (s.db.register S).OneLive
  /-- Linkage and route are what they were when the Ticket came in. -/
  fixed : ∀ acts t, Run (deskStep ι) Always s acts t → ∀ k r, s.db.tickets.committed k = some r →
    ∃ r', t.db.tickets.committed k = some r' ∧ r'.spawnedFromTicketId = r.spawnedFromTicketId ∧
      r'.rootTicketId = r.rootTicketId ∧ r'.slackChannelId = r.slackChannelId ∧ r'.slackThreadTs = r.slackThreadTs
  /-- A Ticket that a reply spawns in the next step has its parent's route and Contact from then on. -/
  inherits : ∀ i x principal k₀ body source at' s' k r p acts t rk, s.sessions i = some x →
    x.req = .reply principal k₀ body source at' → deskStep ι s (.advance i) = some s' → s.db.tickets.size ≤ k →
    s'.db.tickets.own i k = some r → r.spawnedFromTicketId = some p → Run (deskStep ι) Always s' acts t →
    t.db.tickets.committed k = some rk → ∃ rp, t.db.tickets.committed p = some rp ∧ rk.contactId = rp.contactId ∧
      rk.slackChannelId = rp.slackChannelId ∧ rk.slackThreadTs = rp.slackThreadTs
  /-- While a chain that is closed in `s` sees no close, at most one Ticket of it is committed, and each
  reply to it that has begun since and commits has its Message on that Ticket. -/
  oneSpawn : ∀ c acts t, Run (deskStep ι) Always s acts t →
    (∀ k r, s.db.tickets.committed k = some r → r.chain k = c → r.state = .closed) →
    (∀ k r, t.db.tickets.committed k = some r → r.chain k = c → r.state = .closed → (s.db.tickets.committed k).isSome) →
    (∀ k k', Spawned s t c k → Spawned s t c k' → k = k') ∧
    ∀ i u acts₁ v acts₂ v' acts₃ principal k₀ r₀ body source at' a, Run (deskStep ι) Always s acts₁ u →
      u.sessions i = none → Run (deskStep ι) Always u acts₂ v → deskStep ι v (.advance i) = some v' →
      v'.answers = v.answers ++ [(.reply principal k₀ body source at', a)] → Run (deskStep ι) Always v' acts₃ t →
      t.db.tickets.committed k₀ = some r₀ → r₀.chain k₀ = c →
      ∃ y, a = some y ∧ v'.db.messages.committed y.messageId = some y.message ∧ y.message.ticketId = y.ticketId ∧
        Spawned s t c y.ticketId
  /-- What has no answer, a reply that fails among it, leaves the database as it was. -/
  failed : ∀ m s', deskStep ι s m = some s' → s'.answers = s.answers → s.db.Unchanged s'.db

private theorem inherits_of_run {principal : ContactPrincipal} {k₀ : Uuid} {body : String} {source : TicketSource}
    {at' : Int} {rk : Ticket}
    {x : Session deskLanguage Failure (Option ContactReply) TenantContext Cursor (Request Work.KeepsContact)}
    (hr : Run (deskStep ι) Always (Server.initial Desk.empty) acts s) (hx : s.sessions i = some x)
    (hreq : x.req = .reply principal k₀ body source at') (hs : deskStep ι s (.advance i) = some s')
    (hk : s.db.tickets.size ≤ k) (ho : s'.db.tickets.own i k = some r) (hp : r.spawnedFromTicketId = some p)
    (hr' : Run (deskStep ι) Always s' acts' t) (hrk : t.db.tickets.committed k = some rk) :
    ∃ rp, t.db.tickets.committed p = some rp ∧ rk.contactId = rp.contactId ∧ rk.slackChannelId = rp.slackChannelId ∧
      rk.slackThreadTs = rp.slackThreadTs := by
  have hs'r : Run (deskStep ι) Always (Server.initial Desk.empty) (acts ++ [.advance i]) s' := .snoc hr trivial hs
  have harmed : s.Armed (requestService ι Work.KeepsContact) := armed_of_run (E := deskEngine ι) (armed_initial _) hr
  obtain ⟨d₀,hctx⟩ := harmed i x hx
  have hc : x.ctx.actor = .contact principal.contactId := by
    rw [hctx, hreq]
    rfl
  obtain ⟨hrc,rp,hrp,hpc⟩ := kin_of_step hx hc hs hk ho hp
  have hstays := staysAkin_of_run hs'r hr'
  obtain ⟨hcontact,hsp⟩ := hstays.akin k r rk (.inr ⟨i,ho⟩) (.inl hrk)
  have hlinked := ((upright_of_run (hs'r.append hr')).rooted (fun _ => false) k rk (by simpa using hrk)).1
  simp only [Register.Linked, hsp, hp, Desk.register_tickets, Table.view_none] at hlinked
  obtain ⟨parent,hparent,_,_,hch,hth⟩ := hlinked
  obtain ⟨hcontact',_⟩ := hstays.akin p rp parent (.of_visible hrp) (.inl hparent)
  exact ⟨parent,hparent,by rw [hcontact, hcontact', hrc, hpc],hch,hth⟩

private theorem oneSpawn_of_run {c : Uuid} (hr : Run (deskStep ι) Always (Server.initial Desk.empty) acts s)
    (hclosed : ∀ k r, s.db.tickets.committed k = some r → r.chain k = c → r.state = .closed) {i : ι} {u v v' : DeskServer ι}
    {acts₁ acts₂ acts₃ : List (Move ι (Request Work.KeepsContact) Event)} {principal : ContactPrincipal} {k₀ : Uuid}
    {r₀ : Ticket} {body : String} {source : TicketSource} {at' : Int} {a : Option ContactReply}
    (hu : Run (deskStep ι) Always s acts₁ u) (hidle : u.sessions i = none) (hv : Run (deskStep ι) Always u acts₂ v)
    (hs : deskStep ι v (.advance i) = some v')
    (hans : v'.answers = v.answers ++ [(.reply principal k₀ body source at', a)])
    (ht : Run (deskStep ι) Always v' acts₃ t) (hr₀ : t.db.tickets.committed k₀ = some r₀) (hc : r₀.chain k₀ = c) :
    ∃ y, a = some y ∧ v'.db.messages.committed y.messageId = some y.message ∧ y.message.ticketId = y.ticketId ∧
      Spawned s t c y.ticketId := by
  have hup := upright_of_run hr
  have huu := upright_from hup hu (upright_of_run (hr.append hu))
  obtain ⟨hdb,y,rfl,hland⟩ := landed_of_commit (hr.append hu) huu hidle hv hs hans
  obtain ⟨s₀,sy,hs₀,hsy,hchain⟩ := hland.joined
  have hv'r : Run (deskStep ι) Always (Server.initial Desk.empty) _ v' := ((hr.append hu).append hv).snoc trivial hs
  have hv' := upright_of_run hv'r
  -- both Tickets are committed by the reply, if not before, and stay in their chain
  obtain ⟨r',hr',hev₀⟩ := evolves_of_run ht hv'.coherent (by rw [hdb]; exact hs₀)
  obtain ⟨ry,hry,hevy⟩ := evolves_of_run ht hv'.coherent (by rw [hdb]; exact hsy)
  cases hr₀.symm.trans hr'
  have hcy : ry.chain y.ticketId = c := by rw [hevy.chain, hchain, ← hev₀.chain, hc]
  refine ⟨y,rfl,by rw [hdb]; exact Table.visible_of_own _ _ _ hland.message,hland.ticket,?_,ry,hry,hcy⟩
  cases hold : s.db.tickets.committed y.ticketId with
  | none => rfl
  | some r =>
    have hst : Run (deskStep ι) Always s _ t := ((hu.append hv).snoc trivial hs).append ht
    obtain ⟨ry',hry',hev⟩ := evolves_of_run hst hup.coherent hold
    cases hry.symm.trans hry'
    have hrc : r.chain y.ticketId = c := by rw [← hev.chain, hcy]
    exact absurd ⟨r,hold,hclosed _ r hold hrc⟩ hland.spared

/-- At most one live Ticket per conversation, whoever the writers are. -/
theorem conversations_of_run (hr : Run (deskStep ι) Always (Server.initial Desk.empty) acts s) : Conversations s := by
  have honeLive : ∀ {acts s}, Run (deskStep ι) Always (Server.initial Desk.empty) acts s →
      ∀ S, (s.db.register S).OneLive := by
    intro acts s hr S
    exact (single_of_run hr S).oneLive (rooted_of_run hr S)
  refine ⟨honeLive hr,fun acts' t ht k r hk => ?_,?_,?_,fun m s' hs hans => ?_⟩
  · obtain ⟨r',hr',hev⟩ := evolves_of_run ht (upright_of_run hr).coherent hk
    exact ⟨r',hr',hev.spawnedFrom,hev.root,hev.channel,hev.thread⟩
  · intro i x principal k₀ body source at' s' k r p acts' t rk hx hreq hs hk ho hp ht hrk
    exact inherits_of_run hr hx hreq hs hk ho hp ht hrk
  · intro c acts' t ht hclosed hnone
    refine ⟨fun k k' hk hk' => ?_,?_⟩
    · have hlive : ∀ {k}, Spawned s t c k → ∃ r, t.db.tickets.committed k = some r ∧ r.chain k = c ∧ r.isLive = true := by
        rintro k ⟨hnew,r,hr,hc⟩
        refine ⟨r,hr,hc,?_⟩
        simp only [Ticket.isLive, decide_eq_true_eq]
        intro hcl
        have hsome := hnone k r hr hc hcl
        simp [hnew] at hsome
      obtain ⟨r,hr',hc,hl⟩ := hlive hk
      obtain ⟨r',hr'',hc',hl'⟩ := hlive hk'
      exact (honeLive (hr.append ht) fun _ => false).chain k k' r r' (by simpa using hr') (by simpa using hr'') hl hl'
        (hc.trans hc'.symm)
    · intro i u acts₁ v acts₂ v' acts₃ principal k₀ r₀ body source at' a hu hidle hv hs hans ht hr₀ hc
      exact oneSpawn_of_run hr hclosed hu hidle hv hs hans ht hr₀ hc
  · rcases committed_of_step hs with ⟨_,hsame⟩ | ⟨_,_,_,_,_,_,_,_,hans'⟩
    · exact hsame
    · simp [hans] at hans'

end Runs
private def closing : Request Work.KeepsContact :=
  .other ⟨1, .system, do
    let c ← Tx.run .insertContact .sql
    let ticket ← createIn 1 ⟨"printer", c, .portal, none, none⟩ 0
    let _ ← transitionIn [.ticketClose] ticket.1 .resolved 1
    let _ ← transitionIn [.ticketClose] ticket.1 .closed 2
    pure none⟩ ((Script.only_query trivial).bind fun _ => (plain_repertoire.createIn.mono fun _ => keepsContact_of_plain).bind fun _ =>
      ((@plain_repertoire 1).transitionIn.mono fun _ => keepsContact_of_plain).bind fun _ =>
        ((@plain_repertoire 2).transitionIn.mono fun _ => keepsContact_of_plain).bind fun _ => trivial)

/-- Two replies to the closed Ticket, both of which find no live one. The second is refused. -/
private def colliding : List (Move Bool (Request Work.KeepsContact) Event) :=
  Move.begin true (.reply ⟨1, 0⟩ 0 "again" .portal 3) :: .begin false (.reply ⟨1, 0⟩ 0 "hello?" .portal 4) ::
    List.replicate 4 (Move.advance true) ++ List.replicate 4 (Move.advance false) ++ List.replicate 9 (Move.advance true) ++
    List.replicate 3 (Move.advance false)

theorem conversations_of_collision : ∃ s t : DeskServer Bool, Conversations s ∧ Conversations t ∧
    t.answers.length = s.answers.length + 1 ∧ ∀ k, Spawned s t 0 k ↔ k = 1 := by
  have hrun : (exec (deskStep Bool) Always (Server.initial Desk.empty)
      (.begin true closing :: List.replicate 21 (.advance true))).any (fun s =>
        s.db.tickets.size = 1 ∧ (s.db.tickets.committed 0).any (fun r => r.state = .closed) ∧
        (exec (deskStep Bool) Always s colliding).any fun t =>
          t.db.tickets.size = 2 ∧ (t.db.tickets.committed 1).any (fun r => r.chain 1 = 0 ∧ r.state = .opened) ∧
            t.answers.length = s.answers.length + 1) = true := by
    decide +kernel
  obtain ⟨s,hs,hany⟩ := exec_any hrun
  obtain ⟨hsize,hclosed,hany⟩ := of_decide_eq_true hany
  obtain ⟨t,ht,hany⟩ := exec_any hany
  obtain ⟨htsize,hopen,hans⟩ := of_decide_eq_true hany
  obtain ⟨r₀,hr₀,hr₀c⟩ := (Option.any_eq_true _ _).mp hclosed
  obtain ⟨r₁,hr₁,hr₁o⟩ := (Option.any_eq_true _ _).mp hopen
  have hconv := conversations_of_run hs
  refine ⟨s,t,hconv,conversations_of_run (hs.append ht),hans,fun k => ?_⟩
  have hone : Spawned s t 0 1 := by
    refine ⟨s.db.tickets.committed_fresh 1 (by omega),r₁,hr₁,?_⟩
    simp only [decide_eq_true_eq] at hr₁o
    exact hr₁o.1
  refine ⟨fun hk => (hconv.oneSpawn 0 colliding t ht ?_ ?_).1 k 1 hk hone,fun hk => hk ▸ hone⟩
  · intro k r hr _
    have hk := Table.lt_size_of_committed _ _ hr
    obtain rfl : k = 0 := by omega
    cases hr₀.symm.trans hr
    simpa using hr₀c
  · intro k r hr _ hcl
    have hk := Table.lt_size_of_committed _ _ hr
    rcases (by omega : k = 0 ∨ k = 1) with rfl | rfl
    · simp [hr₀]
    · cases hr₁.symm.trans hr
      simp only [decide_eq_true_eq] at hr₁o
      rw [hcl] at hr₁o
      cases hr₁o.2

end Nivara.Tickets
