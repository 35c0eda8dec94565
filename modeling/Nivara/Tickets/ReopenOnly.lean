import Nivara.Tickets.Replies

/-! The moves that a Contact's reply makes. It decides on a state it has read, and the reopening
compares the Ticket with a state that is read later: what staff does in between is taken for the
state the reply was about. -/
namespace Nivara.Tickets
open Transactions

variable {P : Work Failure (Option ContactReply) → Prop} {ι : Type} [DecidableEq ι]

def Reopens (before after : TicketState) : Prop :=
  after = before ∨ ((before = .pending ∨ before = .resolved) ∧ after = .opened)

/-- What is committed between `d` and `d'` moves Tickets in no other way. -/
def OnlyReopens (d d' : Desk ι) : Prop :=
  ∀ k r r', d.tickets.committed k = some r → d'.tickets.committed k = some r' → Reopens r.state r'.state

/-- A reply that has decided to reopen Ticket `k`, and has not read it again yet. -/
def BetweenReads {K : Type} (x : Session deskLanguage Failure (Option ContactReply) TenantContext K (Request P)) (k : Uuid) : Prop :=
  x.aborted = false ∧ (∃ principal id body source t, x.req = .reply principal id body source t) ∧
    ∃ t f, x.script = (transitionIn [] k .opened t).bind f

def isDone : Tx (Option ContactReply) → Bool
  | .done _ => true
  | _ => false

/-- The step commits a move of Ticket `k` to on_hold. -/
def parks (s : Server deskLanguage Failure (Option ContactReply) ι TenantContext (Desk ι) (deskEngine ι).Cursor (Request P))
    (k : Uuid) : Move ι (Request P) Event → Bool
  | .advance j => (s.sessions j).any fun y => isDone y.script ∧ y.aborted = false ∧
      (s.db.tickets.own j k).any (·.state = .onHold) ∧ (s.db.tickets.committed k).any (·.state ≠ .onHold)
  | _ => false

/-- No Ticket is put on hold between the two reads of a reply. -/
def ReadsAgree (s : Server deskLanguage Failure (Option ContactReply) ι TenantContext (Desk ι) (deskEngine ι).Cursor (Request P))
    (m : Move ι (Request P) Event) : Prop :=
  ∀ i x k, s.sessions i = some x → BetweenReads x k → parks s k m = false

def Stmt.Opens : Stmt → Prop
  | .updateTickets plan => ∀ k r set old new, plan k r = some set → set old = some new → new.state = .opened
  | _ => True

def Stmt.Reopens : Stmt → Prop
  | .updateTickets plan => ∀ k r set old new, plan k r = some set → set old = some new →
      old.state ≠ .onHold ∧ new.state = .opened
  | _ => True

def Stmt.updates : Stmt → Bool
  | .updateTickets _ => true
  | _ => false

private theorem opens_of_updates {q : Stmt} (h : q.updates = false) : q.Opens := by
  cases q with
  | updateTickets plan => cases h
  | _ => trivial

private theorem reopens_of_updates {q : Stmt} (h : q.updates = false) : q.Reopens := by
  cases q with
  | updateTickets plan => cases h
  | _ => trivial

private def compareAndSet (k : Uuid) (current : Ticket) (t : Int) : Tx (Uuid × Ticket) := do
  let rows ← Tx.updateMany (fun k' r => k' = k ∧ r.state = current.state)
    (fun r => { r with state := .opened, updatedAt := t }) rethrowTicketRefusal
  if rows.isEmpty then .fail changedState else readBack k

private def postTo (body : String) (t : Int) (target : ReplyOutcome × Uuid × Ticket) : Tx ContactReply := do
  let message ← postIn target.2.1 body t
  pure ⟨target.1, target.2.1, target.2.2, message.1, message.2⟩

section Statements
variable {k : Uuid} {t : Int} {principal : ContactPrincipal} {source : TicketSource} {body : String} {r : Ticket}

private theorem transitionIn_eq : transitionIn [] k .opened t = (Tx.findUnique k).bind fun row =>
    row.elim (.fail (AppException.notFound "Ticket")) fun current => compareAndSet k current t := by
  refine congrArg _ (funext fun row => ?_)
  cases row <;> rfl

private theorem spawnOrJoinLive_eq : spawnOrJoinLive principal k r source t =
    (Tx.findFirst fun k' r' => inChainWith k r k' r' ∧ r'.state ≠ .closed).bind fun row =>
      row.elim (((createIn principal.tenantId ⟨r.subject, principal.contactId, source, some k, none⟩ t).rethrow
        rethrowChainConflict).bind fun ticket => .done (.spawn, ticket)) fun live => targetForLive live.1 live.2 t := by
  refine congrArg _ (funext fun row => ?_)
  cases row <;> rfl

private theorem reply_eq : reply principal k body source t = (Tx.findUnique k).bind fun row =>
    row.elim (.fail (AppException.notFound "Ticket")) fun addressed =>
      (targetFor principal k addressed source t).bind (postTo body t) := by
  refine congrArg _ (funext fun row => ?_)
  cases row <;> rfl

private theorem reads_findFirst {picks : Uuid → Ticket → Bool} : (Tx.findFirst picks).Only fun q => Stmt.updates q = false := by
  have hmany : (Tx.findMany picks).Only fun q => Stmt.updates q = false := Script.only_query rfl
  exact hmany.bind fun _ => trivial

private theorem reads_findUnique : (Tx.findUnique k).Only fun q => Stmt.updates q = false := reads_findFirst.bind fun _ => trivial

private theorem adds_postIn : (postIn k body t).Only fun q => Stmt.updates q = false := by
  have hinsert : (Tx.run (.insertMessage k body t) rethrowMissingTicket).Only fun q => Stmt.updates q = false :=
    Script.only_query rfl
  refine Script.Only.bind (reads_findUnique.bind fun row => ?_) fun _ => hinsert.bind fun m => Script.Only.bind ?_ fun _ => trivial
  · cases row with
    | none => trivial
    | some r => trivial
  · unfold dispatchIn
    split
    · trivial
    · refine reads_findUnique.bind fun row => ?_
      split
      · trivial
      · refine ⟨rfl,fun r => ?_⟩
        cases r with
        | error e => cases e <;> trivial
        | ok a => exact Script.only_query rfl

private theorem adds_createIn {tenantId : Uuid} {input : CreateTicketInput} :
    (createIn tenantId input t).Only fun q => Stmt.updates q = false :=
  Script.Only.bind (Script.only_query rfl) fun _ => Script.Only.bind (Script.only_query rfl) fun _ => trivial

theorem opens_postIn : (postIn k body t).Only Stmt.Opens := adds_postIn.mono fun _ => opens_of_updates

theorem opens_createIn {tenantId : Uuid} {input : CreateTicketInput} : (createIn tenantId input t).Only Stmt.Opens :=
  adds_createIn.mono fun _ => opens_of_updates

private theorem only_compareAndSet {p : Stmt → Prop} (hp : ∀ q : Stmt, q.updates = false → p q)
    (hplan : ∀ plan, (∀ k' r' set old new, plan k' r' = some set → set old = some new →
      old.state = r.state ∧ new.state = .opened) → p (.updateTickets plan)) : (compareAndSet k r t).Only p := by
  have hupdate : (Tx.updateMany (fun k' r' => k' = k ∧ r'.state = r.state)
      (fun r' => { r' with state := .opened, updatedAt := t }) rethrowTicketRefusal).Only p := by
    refine Script.only_query (hplan _ fun k' r' set old new hset hnew => ?_)
    obtain ⟨_,heq⟩ := Option.ite_none_right_eq_some.mp hset
    cases heq
    obtain ⟨hmatch,heq⟩ := Option.ite_none_right_eq_some.mp hnew
    cases heq
    exact ⟨(of_decide_eq_true hmatch).2,rfl⟩
  refine hupdate.bind fun rows => ?_
  split
  · trivial
  · refine reads_findUnique.mono hp |>.bind fun row => ?_
    cases row with
    | none => trivial
    | some r => trivial

private theorem opens_compareAndSet : (compareAndSet k r t).Only Stmt.Opens :=
  only_compareAndSet (fun _ => opens_of_updates) fun _ h k' r' set old new hset hnew => (h k' r' set old new hset hnew).2

/-- Against a state that is not on hold, the compare-and-set matches no Ticket that is on hold. -/
private theorem reopens_compareAndSet (hunheld : r.state ≠ .onHold) : (compareAndSet k r t).Only Stmt.Reopens := by
  refine only_compareAndSet (fun _ => reopens_of_updates) fun plan h k' r' set old new hset hnew => ?_
  obtain ⟨hmatch,hopen⟩ := h k' r' set old new hset hnew
  exact ⟨by rw [hmatch]; exact hunheld,hopen⟩

private theorem opens_targetForLive : (targetForLive k r t).Only Stmt.Opens := by
  unfold targetForLive
  split
  · trivial
  · rw [transitionIn_eq]
    refine Script.Only.bind ((reads_findUnique.mono fun _ => opens_of_updates).bind fun row => ?_) fun _ => trivial
    cases row with
    | none => trivial
    | some current => exact opens_compareAndSet

theorem opens_reply : (reply principal k body source t).Only Stmt.Opens := by
  have htarget : ∀ addressed, (targetFor principal k addressed source t).Only Stmt.Opens := by
    intro addressed
    unfold targetFor
    split
    · rw [spawnOrJoinLive_eq]
      refine (reads_findFirst.mono fun _ => opens_of_updates).bind fun row => ?_
      cases row with
      | some live => exact opens_targetForLive
      | none => exact opens_createIn.rethrow.bind fun _ => trivial
    · exact opens_targetForLive
  rw [reply_eq]
  refine (reads_findUnique.mono fun _ => opens_of_updates).bind fun row => ?_
  cases row with
  | none => trivial
  | some addressed => exact (htarget addressed).bind fun _ => opens_postIn.bind fun _ => trivial

private theorem reopens_postTo {target : ReplyOutcome × Uuid × Ticket} : (postTo body t target).Only Stmt.Reopens :=
  (adds_postIn.mono fun _ => reopens_of_updates).bind fun _ => trivial

end Statements

def Moved (i : ι) (d : Desk ι) : Prop :=
  ∀ k r r', d.tickets.own i k = some r' → d.tickets.committed k = some r → Reopens r.state r'.state

structure Spares (i : ι) (d d' : Desk ι) : Prop where
  own : ∀ k, d'.tickets.own i k = d.tickets.own i k
  committed : ∀ k, d.tickets.own i k ≠ none → d'.tickets.committed k = d.tickets.committed k

/-- How far a reply has come. From its decision to its second read it goes by a state that is not on hold. -/
inductive Stage (i : ι) (d : Desk ι) : Tx (Option ContactReply) → Prop
  | addressing {principal : ContactPrincipal} {k : Uuid} {body : String} {source : TicketSource} {t : Int}
      {f : ContactReply → Tx (Option ContactReply)} (blank : ∀ k, d.tickets.own i k = none)
      (rest : ∀ a, (f a).Only Stmt.Reopens) : Stage i d ((reply principal k body source t).bind f)
  | succeeding {principal : ContactPrincipal} {k : Uuid} {parent : Ticket} {source : TicketSource} {t : Int}
      {f : ReplyOutcome × Uuid × Ticket → Tx (Option ContactReply)} (blank : ∀ k, d.tickets.own i k = none)
      (rest : ∀ a, (f a).Only Stmt.Reopens) : Stage i d ((spawnOrJoinLive principal k parent source t).bind f)
  | reopening {k : Uuid} {t : Int} {f : Uuid × Ticket → Tx (Option ContactReply)} {r : Ticket}
      (blank : ∀ k, d.tickets.own i k = none) (current : d.tickets.committed k = some r) (unheld : r.state ≠ .onHold)
      (rest : ∀ a, (f a).Only Stmt.Reopens) : Stage i d ((transitionIn [] k .opened t).bind f)
  | decided {script : Tx (Option ContactReply)} (moved : Moved i d) (rest : script.Only Stmt.Reopens) : Stage i d script

section Database
variable {d d' : Desk ι} {i j : ι} {ctx : TenantContext} {q : Stmt} {c : Cursor} {script : Tx (Option ContactReply)}

theorem Moved.spared (h : Moved i d) (hs : Spares i d d') : Moved i d' := by
  intro k r r' hown hr
  rw [hs.own k] at hown
  rw [hs.committed k (by rw [hown]; simp)] at hr
  exact h k r r' hown hr

private theorem moved_of_blank (h : ∀ k, d.tickets.own i k = none) : Moved i d := by
  intro k r r' hown
  rw [h k] at hown
  cases hown

private theorem Stage.moved (h : Stage i d script) : Moved i d := by
  cases h with
  | addressing blank _ => exact moved_of_blank blank
  | succeeding blank _ => exact moved_of_blank blank
  | reopening blank _ _ _ => exact moved_of_blank blank
  | decided moved _ => exact moved

/-- The others do not take a reply back, if they do not park the Ticket between its two reads. -/
theorem Stage.spared (h : Stage i d script) (hs : Spares i d d')
    (hread : ∀ k t f r, script = (transitionIn [] k .opened t).bind f → d.tickets.committed k = some r → r.state ≠ .onHold →
      ∃ r', d'.tickets.committed k = some r' ∧ r'.state ≠ .onHold) : Stage i d' script := by
  cases h with
  | addressing blank rest => exact .addressing (fun k => (hs.own k).trans (blank k)) rest
  | succeeding blank rest => exact .succeeding (fun k => (hs.own k).trans (blank k)) rest
  | reopening blank current unheld rest =>
    obtain ⟨r',hr',hunheld⟩ := hread _ _ _ _ rfl current unheld
    exact .reopening (fun k => (hs.own k).trans (blank k)) hr' hunheld rest
  | decided moved rest => exact .decided (moved.spared hs) rest

private theorem stage_targetForLive {k : Uuid} {r : Ticket} {t : Int} {f : ReplyOutcome × Uuid × Ticket → Tx (Option ContactReply)}
    (hblank : ∀ k, d.tickets.own i k = none) (hs : d.sees i ctx k = some r) (hf : ∀ a, (f a).Only Stmt.Reopens) :
    Stage i d ((targetForLive k r t).bind f) := by
  have hr : d.tickets.committed k = some r :=
    (Table.visible_of_no_own _ _ _ (hblank k)).symm.trans (Desk.sees_some.mp hs).1
  have hreopen : r.state ≠ .onHold → Stage i d (((transitionIn [] k .opened t).bind fun reopened =>
      .done (.reopen, reopened)).bind f) := by
    intro hunheld
    rw [Script.bind_assoc]
    exact .reopening hblank hr hunheld fun a => hf _
  unfold targetForLive
  cases hstate : r.state with
  | opened => exact .decided (moved_of_blank hblank) (hf _)
  | onHold => exact .decided (moved_of_blank hblank) (hf _)
  | pending => exact hreopen (by simp [hstate])
  | resolved => exact hreopen (by simp [hstate])
  | closed => exact hreopen (by simp [hstate])

private theorem stage_targetFor {k : Uuid} {r : Ticket} {t : Int} {principal : ContactPrincipal} {source : TicketSource}
    {f : ReplyOutcome × Uuid × Ticket → Tx (Option ContactReply)} (hblank : ∀ k, d.tickets.own i k = none)
    (hs : d.sees i ctx k = some r) (hf : ∀ a, (f a).Only Stmt.Reopens) :
    Stage i d ((targetFor principal k r source t).bind f) := by
  unfold targetFor
  split
  · exact .succeeding hblank hf
  · exact stage_targetForLive hblank hs hf

private theorem answer_findFirst {picks : Uuid → Ticket → Bool} {f : Option (Uuid × Ticket) → Tx (Option ContactReply)}
    {next : Except SqlState q.Ans → Tx (Option ContactReply)} {a : q.Ans} (h : (Tx.findFirst picks).bind f = .exec q next)
    (ht : (deskEngine ι).resume d i ctx q c = .answer d' a) :
    d' = d ∧ next (.ok a) = f ((d.rows i ctx).filter fun p => picks p.1 p.2).head? := by
  cases h
  cases ht
  exact ⟨rfl,rfl⟩

private theorem answer_findUnique {k : Uuid} {f : Option Ticket → Tx (Option ContactReply)}
    {next : Except SqlState q.Ans → Tx (Option ContactReply)} {a : q.Ans} (h : (Tx.findUnique k).bind f = .exec q next)
    (ht : (deskEngine ι).resume d i ctx q c = .answer d' a) : d' = d ∧ next (.ok a) = f (d.sees i ctx k) := by
  cases h
  cases ht
  exact ⟨rfl,congrArg f head_findUnique⟩

/-- A new version of a Ticket that `i` sees, where the move from what `i` saw is a reopening. -/
private theorem moved_stored {k : Uuid} {old new r : Ticket} (h : Moved i d) (hs : d.sees i ctx k = some old)
    (hst : Stored d i ctx k old new d' r) (hmove : Reopens old.state r.state) : Moved i d' := by
  obtain ⟨entries,_,rfl⟩ := hst.enforced
  intro k' r₀ r' hown hr₀
  rcases Table.own_write_cases _ _ _ hown with ⟨v,hk,hvis,_,rfl⟩ | hown
  · obtain rfl := List.mem_singleton.mp hk
    obtain rfl : v = old := Option.some.inj (hvis.symm.trans (Desk.sees_some.mp hs).1)
    rcases Table.visible_cases _ _ _ hvis with hv | ⟨_,hv⟩
    · -- the row was the transaction's own already
      rcases h k' r₀ v hv hr₀ with hsame | ⟨hfrom,hopen⟩
      · rwa [hsame] at hmove
      · refine .inr ⟨hfrom,?_⟩
        rcases hmove with he | ⟨_,he⟩
        · exact he.trans hopen
        · exact he
    · cases hv.symm.trans hr₀
      exact hmove
  · exact h k' r₀ r' hown hr₀

private theorem moved_of_effect (h : Moved i d) (he : Effect d i ctx q c d') (hq : q.Reopens)
    (hreach : (deskEngine ι).Reaches i ctx q c) : Moved i d' := by
  cases he with
  | aside _ ht _ _ _ =>
    unfold Moved
    rw [ht]
    exact h
  | @updated plan k set rest written old new r _ _ hs hset hst =>
    obtain ⟨r₀,hplanned⟩ := planned_of_reaches hreach (k, set) (List.mem_cons_self ..)
    obtain ⟨hunheld,hnew⟩ := hq k r₀ set old new hplanned hset
    obtain ⟨entries,hok,_⟩ := hst.enforced
    have hstate : r.state = .opened := (enforced_of_ok hok).state.trans hnew
    refine moved_stored h hs hst ?_
    rcases (enforced_of_ok hok).legal with hsame | hlegal
    · exact .inl hsame
    · refine .inr ⟨?_,hstate⟩
      rw [hstate] at hlegal
      cases hold : old.state with
      | opened => simp [hold, ticketTransitionIsLegal] at hlegal
      | onHold => exact absurd hold hunheld
      | pending => exact .inl rfl
      | resolved => exact .inr rfl
      | closed => simp [hold, ticketTransitionIsLegal] at hlegal
  | inserted _ =>
    intro k r₀ r' hown hr₀
    rcases Table.own_insert_cases _ _ _ _ hown with ⟨rfl,_,_⟩ | hown
    · cases (d.tickets.committed_fresh _ (Nat.le_refl _)).symm.trans hr₀
    · exact h k r₀ r' hown hr₀
  | posted _ hs hst =>
    obtain ⟨entries,hok,_⟩ := hst.enforced
    exact (moved_stored h hs hst (.inl (enforced_of_ok hok).state) :)
  | noted _ hs hst =>
    obtain ⟨entries,hok,_⟩ := hst.enforced
    exact (moved_stored h hs hst (.inl (enforced_of_ok hok).state) :)
  | recorded _ => exact h

/-- A reply goes on: the answer of a statement takes it to its next stage. -/
private theorem stage_of_answer {next : Except SqlState q.Ans → Tx (Option ContactReply)} {a : q.Ans} (h : Stage i d script)
    (hscript : script = .exec q next) (hreach : (deskEngine ι).Reaches i ctx q c)
    (ht : (deskEngine ι).resume d i ctx q c = .answer d' a) : Stage i d' (next (.ok a)) := by
  cases h with
  | @addressing principal k body source t f blank rest =>
    rw [reply_eq, Script.bind_assoc] at hscript
    obtain ⟨rfl,hnext⟩ := answer_findUnique hscript ht
    rw [hnext]
    cases hs : d'.sees i ctx k with
    | none => exact .decided (moved_of_blank blank) trivial
    | some r =>
      rw [Option.elim_some, Script.bind_assoc]
      exact stage_targetFor blank hs fun a => reopens_postTo.bind rest
  | @succeeding principal k parent source t f blank rest =>
    rw [spawnOrJoinLive_eq, Script.bind_assoc] at hscript
    obtain ⟨rfl,hnext⟩ := answer_findFirst hscript ht
    rw [hnext]
    cases hlive : ((d'.rows i ctx).filter fun p => decide (inChainWith k parent p.1 p.2 ∧ p.2.state ≠ .closed)).head? with
    | none =>
      have hcreate : (createIn principal.tenantId ⟨parent.subject, principal.contactId, source, some k, none⟩ t).Only Stmt.Reopens :=
        adds_createIn.mono fun _ => reopens_of_updates
      exact .decided (moved_of_blank blank) (Script.Only.bind (Script.Only.bind hcreate.rethrow fun _ => trivial) rest)
    | some live =>
      have hin := (List.mem_filter.mp (List.mem_of_mem_head? hlive)).1
      exact stage_targetForLive blank (Desk.mem_rows.mp hin) rest
  | @reopening k t f r blank current unheld rest =>
    rw [transitionIn_eq, Script.bind_assoc] at hscript
    obtain ⟨rfl,hnext⟩ := answer_findUnique hscript ht
    rw [hnext]
    cases hs : d'.sees i ctx k with
    | none => exact .decided (moved_of_blank blank) trivial
    | some r' =>
      -- the second read finds what is committed
      have hsame : r' = r := Option.some.inj ((Desk.sees_some.mp hs).1.symm.trans
        ((Table.visible_of_no_own _ _ _ (blank k)).trans current))
      have hunheld : r'.state ≠ .onHold := by
        rw [hsame]
        exact unheld
      exact .decided (moved_of_blank blank) ((reopens_compareAndSet hunheld).bind rest)
  | decided moved rest =>
    rw [hscript] at rest
    exact .decided (moved_of_effect moved (effect_of_answer ht) rest.1 hreach) (rest.2 _)

private theorem stage_of_more {next : Except SqlState q.Ans → Tx (Option ContactReply)} {c' : Cursor} (h : Stage i d script)
    (hscript : script = .exec q next) (hreach : (deskEngine ι).Reaches i ctx q c)
    (ht : (deskEngine ι).resume d i ctx q c = .more d' c') : Stage i d' script := by
  obtain ⟨plan,rfl⟩ := update_of_more ht
  cases h with
  | addressing _ _ => cases hscript
  | succeeding _ _ => cases hscript
  | reopening _ _ _ _ => cases hscript
  | decided moved rest =>
    refine .decided (moved_of_effect moved (effect_of_more ht) ?_ hreach) rest
    rw [hscript] at rest
    exact rest.1

private theorem spares_of_effect (he : Effect d i ctx q c d') (hj : j ≠ i) : Spares j d d' :=
  ⟨(own_of_effect he hj).1,fun k _ => by rw [(committed_of_effect he).1]⟩

private theorem spares_commit (hj : j ≠ i) : Spares j d (d.commit i) where
  own _ := Table.own_commit_other _ _ _ _ hj
  committed k hk := by
    obtain ⟨r,hr⟩ := Option.ne_none_iff_exists'.mp hk
    exact Table.visible_of_no_own _ _ _ (Table.own_exclusive _ _ _ _ hr hj.symm)

end Database

structure Staged (s : Server deskLanguage Failure (Option ContactReply) ι TenantContext (Desk ι) (deskEngine ι).Cursor (Request P)) : Prop where
  idle : ∀ i, s.sessions i = none → ∀ k, s.db.tickets.own i k = none
  replies : ∀ i x, s.sessions i = some x → x.aborted = false →
    ∀ principal k body source t, x.req = .reply principal k body source t → Stage i s.db x.script

section Servers
variable {s s' : Server deskLanguage Failure (Option ContactReply) ι TenantContext (Desk ι) (deskEngine ι).Cursor (Request P)}
  {m : Move ι (Request P) Event} {i : ι} {d : Desk ι}

/-- The transaction `i` takes a step, and nothing is parked between the two reads of another. -/
private theorem staged_put {x : Option (Session deskLanguage Failure (Option ContactReply) TenantContext (deskEngine ι).Cursor (Request P))}
    {as : List (Request P × Option ContactReply)} (h : Staged s) (hs : ∀ j, j ≠ i → Spares j s.db d)
    (hread : ∀ j y k r, s.sessions j = some y → BetweenReads y k → s.db.tickets.committed k = some r → r.state ≠ .onHold →
      ∃ r', d.tickets.committed k = some r' ∧ r'.state ≠ .onHold)
    (hidle : x = none → ∀ k, d.tickets.own i k = none)
    (hself : ∀ y, x = some y → y.aborted = false → ∀ principal k body source t, y.req = .reply principal k body source t →
      Stage i d y.script) : Staged { s.put d i x with answers := as } where
  idle j hj k := by
    by_cases hji : j = i
    · subst hji
      exact hidle ((s.put_self d j x).symm.trans hj) k
    · exact ((hs j hji).own k).trans (h.idle j ((s.put_other d x hji).symm.trans hj) k)
  replies j y hy hl principal k body source t hreq := by
    by_cases hji : j = i
    · subst hji
      exact hself y ((s.put_self d j x).symm.trans hy) hl principal k body source t hreq
    · have hy' := (s.put_other d x hji).symm.trans hy
      refine (h.replies j y hy' hl principal k body source t hreq).spared (hs j hji) fun k' t' f r hscript hr hunheld => ?_
      exact hread j y k' r hy' ⟨hl,⟨principal,k,body,source,t,hreq⟩,t',f,hscript⟩ hr hunheld

/-- A commit that parks nothing leaves a Ticket that is not on hold where it is not on hold. -/
private theorem unheld_of_commit {x : Session deskLanguage Failure (Option ContactReply) TenantContext (deskEngine ι).Cursor (Request P)}
    {a : Option ContactReply} {k : Uuid} {r : Ticket} (hx : s.sessions i = some x) (hscript : x.script = .done a)
    (hl : x.aborted = false) (hparks : parks s k (.advance i) = false) (hr : s.db.tickets.committed k = some r)
    (hunheld : r.state ≠ .onHold) : ∃ r', (s.db.commit i).tickets.committed k = some r' ∧ r'.state ≠ .onHold := by
  cases hown : s.db.tickets.own i k with
  | none => exact ⟨r,(Table.visible_of_no_own _ _ _ hown).trans hr,hunheld⟩
  | some r' =>
    refine ⟨r',Table.visible_of_own _ _ _ hown,?_⟩
    simpa [parks, hx, hscript, hl, isDone, hown, hr, hunheld] using hparks

private theorem staged_step (h : Staged s) (hdis : s.Disciplined (deskEngine ι) fun _ => True) (hok : ReadsAgree s m)
    (hs : s.step (deskEngine ι) (requestService ι P) Desk.world m = some s') : Staged s' := by
  have hsame : ∀ {d : Desk ι}, d.tickets.committed = s.db.tickets.committed → ∀ j y k r, s.sessions j = some y →
      BetweenReads y k → s.db.tickets.committed k = some r → r.state ≠ .onHold →
      ∃ r', d.tickets.committed k = some r' ∧ r'.state ≠ .onHold :=
    fun hd _ _ k r _ _ hr hunheld => ⟨r,by rw [hd]; exact hr,hunheld⟩
  have hrolled : ∀ i j, j ≠ i → Spares j s.db (s.db.rollback i) := fun i j hj =>
    ⟨fun _ => Table.own_rollback_other _ _ _ _ hj,fun _ _ => rfl⟩
  have hstill : ∀ i j, j ≠ i → Spares j s.db s.db := fun _ _ _ => ⟨fun _ => rfl,fun _ _ => rfl⟩
  cases Server.took_of_step hs with
  | @began i req hi =>
    refine staged_put h (hstill i) (hsame rfl) (fun hn => by cases hn) fun y hy _ principal k body source t hreq => ?_
    cases hy
    cases hreq
    exact .addressing (h.idle i hi) fun _ => trivial
  | @committed i x a hx hscript hl =>
    refine staged_put h (fun j hj => spares_commit hj) (fun j y k r hy hbetween hr hunheld => ?_)
      (fun _ => Desk.own_tickets_commit s.db i) fun y hy => by cases hy
    exact unheld_of_commit hx hscript hl (hok j y k hy hbetween) hr hunheld
  | @closed i x m hx =>
    exact staged_put h (hrolled i) (hsame rfl) (fun _ => Desk.own_tickets_rollback s.db i) fun y hy => by cases hy
  | @skipped i x q next hx _ hdead =>
    refine staged_put h (hstill i) (hsame rfl) (fun hn => by cases hn) fun y hy hl => ?_
    cases hy
    cases hdead.symm.trans hl
  | @started i x q next hx _ hl _ =>
    refine staged_put h (hstill i) (hsame rfl) (fun hn => by cases hn) fun y hy _ => ?_
    cases hy
    exact h.replies i x hx hl
  | @refused i x q next c r hx _ _ _ _ =>
    refine staged_put h (hrolled i) (hsame rfl) (fun hn => by cases hn) fun y hy hl => ?_
    cases hy
    cases hl
  | @went i x q next c c' d hx hscript hl hc ht =>
    refine staged_put h (fun j hj => spares_of_effect (effect_of_more ht) hj) (hsame (committed_of_effect (effect_of_more ht)).1)
      (fun hn => by cases hn) fun y hy _ principal k body source t hreq => ?_
    cases hy
    exact stage_of_more (h.replies i x hx hl principal k body source t hreq) hscript ((hdis i x hx).2 hl q next c hscript hc) ht
  | @answered i x q next c d a hx hscript hl hc ht =>
    refine staged_put h (fun j hj => spares_of_effect (effect_of_answer ht) hj)
      (hsame (committed_of_effect (effect_of_answer ht)).1) (fun hn => by cases hn) fun y hy _ principal k body source t hreq => ?_
    cases hy
    exact stage_of_answer (h.replies i x hx hl principal k body source t hreq) hscript
      ((hdis i x hx).2 hl q next c hscript hc) ht
  | turned hw =>
    obtain ⟨clock,users,rfl⟩ := Desk.of_world hw
    refine ⟨h.idle,fun j y hy hl principal k body source t hreq => ?_⟩
    exact (h.replies j y hy hl principal k body source t hreq).spared ⟨fun _ => rfl,fun _ _ => rfl⟩
      fun k' t' f r _ hr hunheld => ⟨r,hr,hunheld⟩

/-- In a run in which nothing is parked between the two reads of a reply, every reply is at one of its stages. -/
private theorem staged_of_run {acts : List (Move ι (Request P) Event)}
    (hr : Run (Server.step (deskEngine ι) (requestService ι P) Desk.world) ReadsAgree (Server.initial Desk.empty) acts s) :
    Staged s := by
  have hinit : Staged (Server.initial Desk.empty : Server deskLanguage Failure (Option ContactReply) ι TenantContext (Desk ι)
      (deskEngine ι).Cursor (Request P)) := ⟨fun _ _ _ => rfl,fun _ _ hx => by cases hx⟩
  refine (hr.invariant (I := fun s => Staged s ∧ s.Disciplined (deskEngine ι) fun _ => True) ⟨hinit,disciplined_initial _⟩ ?_).1
  intro t m u ht hok hs
  exact ⟨staged_step ht.1 ht.2 hok hs,disciplined_step (fun _ => Script.only_any _) ht.2 hs⟩

end Servers

/-- Beside any other transactions, in a run in which no move to on_hold commits between the read that a reply decides on
and the read that it compares with, what a reply commits moves Tickets from pending or resolved to open, and in no other way. -/
theorem onlyReopens_of_run {acts : List (Move ι (Request P) Event)} {m : Move ι (Request P) Event}
    {s s' : Server deskLanguage Failure (Option ContactReply) ι TenantContext (Desk ι) (deskEngine ι).Cursor (Request P)}
    (hr : Run (Server.step (deskEngine ι) (requestService ι P) Desk.world) ReadsAgree (Server.initial Desk.empty) acts s)
    (hs : s.step (deskEngine ι) (requestService ι P) Desk.world m = some s')
    {principal : ContactPrincipal} {k : Uuid} {body : String} {source : TicketSource} {at' : Int} {a : Option ContactReply}
    (hreply : s'.answers = s.answers ++ [(.reply principal k body source at', a)]) : OnlyReopens s.db s'.db := by
  rcases committed_of_step hs with ⟨hans,_⟩ | ⟨i,x,b,rfl,hx,hscript,hl,hdb,hans⟩
  · simp [hans] at hreply
  · have hreq : x.req = .reply principal k body source at' := by
      rw [hans] at hreply
      simpa using congrArg Prod.fst (List.singleton_inj.mp (List.append_cancel_left hreply))
    have hmoved : Moved i s.db := ((staged_of_run hr).replies i x hx hl principal k body source at' hreq).moved
    intro k' r r' hcom hcom'
    rw [hdb] at hcom'
    rcases Table.visible_cases _ _ _ hcom' with hown | ⟨_,hsame⟩
    · exact hmoved k' r r' hown hcom
    · cases hsame.symm.trans hcom
      exact .inl rfl

def Work.Any (_ : Work Failure (Option ContactReply)) : Prop := True

private def opened : Request Work.Any :=
  .other ⟨1, .system, do
    let c ← Tx.run .insertContact .sql
    let _ ← createIn 1 ⟨"printer", c, .portal, none, none⟩ 0
    pure none⟩ trivial

private def moving (to' : TicketState) (at' : Int) : Request Work.Any :=
  .other ⟨1, .user 3, do
    let _ ← transitionIn [.ticketTransition] 0 to' at'
    pure none⟩ trivial

private def answering : Request Work.Any := .reply ⟨1, 0⟩ 0 "here is the log" .portal 3

private def readPending : List (Move Bool (Request Work.Any) Event) :=
  Move.begin true opened :: List.replicate 7 (Move.advance true) ++ Move.begin false (moving .pending 1) :: List.replicate 8 (Move.advance false) ++
    Move.begin true answering :: List.replicate 2 (Move.advance true)

private def parked : List (Move Bool (Request Work.Any) Event) :=
  readPending ++ Move.begin false (moving .onHold 2) :: List.replicate 8 (Move.advance false) ++ List.replicate 11 (Move.advance true)

/-- The next step of the reply commits it, with the Ticket in these states before and after. -/
private def commitsReply (before after : TicketState)
    (s : Server deskLanguage Failure (Option ContactReply) Bool TenantContext (Desk Bool) (deskEngine Bool).Cursor (Request Work.Any)) : Bool :=
  (s.sessions true).any (fun x => match x.req with
    | .reply principal k body source at' => principal = ⟨1, 0⟩ ∧ k = 0 ∧ body = "here is the log" ∧ source = .portal ∧ at' = 3
    | _ => false) &&
  (s.step (deskEngine Bool) (requestService Bool Work.Any) Desk.world (.advance true)).any fun s' =>
    s'.answers.length = s.answers.length + 1 ∧ (s.db.tickets.committed 0).map (·.state) = some before ∧
      (s'.db.tickets.committed 0).map (·.state) = some after

private theorem answers_of_commitsReply {before after : TicketState}
    {s : Server deskLanguage Failure (Option ContactReply) Bool TenantContext (Desk Bool) (deskEngine Bool).Cursor (Request Work.Any)}
    (h : commitsReply before after s = true) :
    ∃ s' a, s.step (deskEngine Bool) (requestService Bool Work.Any) Desk.world (.advance true) = some s' ∧
      s'.answers = s.answers ++ [(answering, a)] ∧ (s.db.tickets.committed 0).map (·.state) = some before ∧
      (s'.db.tickets.committed 0).map (·.state) = some after := by
  obtain ⟨hreq,hstep⟩ := Bool.and_eq_true_iff.mp h
  obtain ⟨x,hx,hreq⟩ := (Option.any_eq_true _ _).mp hreq
  obtain ⟨s',hs',hend⟩ := (Option.any_eq_true _ _).mp hstep
  obtain ⟨hlength,hbefore,hafter⟩ := of_decide_eq_true hend
  rcases committed_of_step hs' with ⟨hans,_⟩ | ⟨i,y,a,hm,hy,_,_,_,hans⟩
  · rw [hans] at hlength
    simp at hlength
  · cases hm
    cases hx.symm.trans hy
    refine ⟨s',a,hs',?_,hbefore,hafter⟩
    rw [hans]
    cases hxreq : x.req with
    | reply principal k body source at' =>
      rw [hxreq] at hreq
      obtain ⟨rfl,rfl,rfl,rfl,rfl⟩ := of_decide_eq_true hreq
      rfl
    | openThread principal message at' =>
      rw [hxreq] at hreq
      cases hreq
    | other work hwork =>
      rw [hxreq] at hreq
      cases hreq

theorem reply_takes_off_hold : ∃ (s s' : Server deskLanguage Failure (Option ContactReply) Bool TenantContext (Desk Bool) Cursor
      (Request Work.Any)) (a : Option ContactReply),
    Run (Server.step (deskEngine Bool) (requestService Bool Work.Any) Desk.world) Always (Server.initial Desk.empty) parked s ∧
    s.step (deskEngine Bool) (requestService Bool Work.Any) Desk.world (.advance true) = some s' ∧
    s'.answers = s.answers ++ [(answering, a)] ∧ (s.db.tickets.committed 0).map (·.state) = some .onHold ∧
    (s'.db.tickets.committed 0).map (·.state) = some .opened ∧ ¬ OnlyReopens s.db s'.db := by
  have hrun : (exec (Server.step (deskEngine Bool) (requestService Bool Work.Any) Desk.world) Always
      (Server.initial Desk.empty) parked).any (fun s => commitsReply .onHold .opened s) = true := by decide +kernel
  obtain ⟨s,hs,hcommits⟩ := exec_any hrun
  obtain ⟨s',a,hs',hans,hbefore,hafter⟩ := answers_of_commitsReply hcommits
  refine ⟨s,s',a,hs,hs',hans,hbefore,hafter,fun honly => ?_⟩
  obtain ⟨r,hr,hheld⟩ := Option.map_eq_some_iff.mp hbefore
  obtain ⟨r',hr',hopen⟩ := Option.map_eq_some_iff.mp hafter
  have hmove := honly 0 r r' hr hr'
  rw [hheld, hopen] at hmove
  rcases hmove with h | ⟨h | h,_⟩ <;> cases h

/-- The Ticket was on hold before the reply began, and is resolved between its two reads. -/
private def solvedBetween : List (Move Bool (Request Work.Any) Event) :=
  Move.begin true opened :: List.replicate 7 (Move.advance true) ++
    Move.begin false (moving .onHold 1) :: List.replicate 8 (Move.advance false) ++
    Move.begin false (moving .pending 1) :: List.replicate 8 (Move.advance false) ++
    Move.begin true answering :: List.replicate 2 (Move.advance true) ++
    Move.begin false (moving .resolved 2) :: List.replicate 8 (Move.advance false) ++ List.replicate 11 (Move.advance true)

private def isReply : Request Work.Any → Bool
  | .reply _ _ _ _ _ => true
  | _ => false

private def heeds
    (s : Server deskLanguage Failure (Option ContactReply) Bool TenantContext (Desk Bool) (deskEngine Bool).Cursor (Request Work.Any))
    (m : Move Bool (Request Work.Any) Event) : Bool :=
  ([true, false].all fun i => (s.sessions i).all fun x => !isReply x.req) ||
    (List.range s.db.tickets.size).all fun k => !parks s k m

private theorem readsAgree_of_heeds
    {s : Server deskLanguage Failure (Option ContactReply) Bool TenantContext (Desk Bool) (deskEngine Bool).Cursor (Request Work.Any)}
    {m : Move Bool (Request Work.Any) Event} (h : heeds s m = true) : ReadsAgree s m := by
  rintro i x k hx ⟨hl,⟨principal,k₀,body,source,t,hreq⟩,_⟩
  rcases Bool.or_eq_true_iff.mp h with hnone | hparks
  · have hi := List.all_eq_true.mp hnone i (by cases i <;> simp)
    simp [hx, hreq, isReply] at hi
  · by_cases hk : k < s.db.tickets.size
    · simpa using List.all_eq_true.mp hparks k (List.mem_range.mpr hk)
    · cases m with
      | advance j =>
        have hown : s.db.tickets.own j k = none := by
          refine Option.eq_none_iff_forall_ne_some.mpr fun r hr => hk (Table.lt_size_of_own _ _ _ hr)
        simp only [parks, hown, Option.any_none]
        cases s.sessions j <;> simp
      | _ => rfl

theorem onlyReopens_of_overtaken : ∃ (s s' : Server deskLanguage Failure (Option ContactReply) Bool TenantContext (Desk Bool) Cursor
      (Request Work.Any)),
    s.step (deskEngine Bool) (requestService Bool Work.Any) Desk.world (.advance true) = some s' ∧
    (s.db.tickets.committed 0).map (·.state) = some .resolved ∧ (s'.db.tickets.committed 0).map (·.state) = some .opened ∧
    OnlyReopens s.db s'.db := by
  have hrun : (exec (Server.step (deskEngine Bool) (requestService Bool Work.Any) Desk.world)
      (fun s m => heeds s m = true) (Server.initial Desk.empty) solvedBetween).any (fun s => commitsReply .resolved .opened s) = true := by
    decide +kernel
  obtain ⟨s,hs,hcommits⟩ := exec_any hrun
  obtain ⟨s',a,hs',hans,hbefore,hafter⟩ := answers_of_commitsReply hcommits
  exact ⟨s,s',hs',hbefore,hafter,onlyReopens_of_run (hs.mono fun _ _ => readsAgree_of_heeds) hs' hans⟩

end Nivara.Tickets
