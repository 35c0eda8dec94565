import Nivara.Idempotency.ClaimExclusion
import Nivara.Idempotency.Interceptor

/-! A settle names its record by scope, key and status alone. It finds its own claim there as
long as no record is taken for its deadline while its claimant has still to settle. -/
namespace Nivara.Idempotency
open Transactions

/-- A settle changes the record only while the record is its own request's claim. -/
def SettlesOwn {β : Type} (history : List (Event CallId β)) : Prop :=
  (∀ i claim response, .completed (.complete i) claim response ∈ history → claim = .claim i) ∧
  ∀ i claim, .released (.release i) claim ∈ history → claim = .claim i

def CallId.kind : CallId → Kind
  | .claim _ => .claim
  | .complete _ => .complete
  | .release _ => .release
  | .sweep _ => .sweep

def CallId.request : CallId → Option Nat
  | .claim i => some i
  | .complete i => some i
  | .release i => some i
  | .sweep _ => none

/-- How far a request has come. It holds a claim it has still to settle from 2 to 4. -/
def Stage.rank {β : Type} : Stage β → Nat
  | .claiming => 1
  | .handling => 2
  | .completing _ => 3
  | .releasing => 4
  | .finished => 5

namespace Pipeline
variable {β : Type}

def rank (p : Pipeline β) (i : Nat) : Nat := (p.requests i).elim 0 Stage.rank

def isFinished (p : Pipeline β) : CallId → Bool
  | .claim i => p.rank i = 5
  | _ => true

/-- The step does not take a record for its deadline from a request that has still to settle. -/
def settlesBeforeLapse (p : Pipeline β) : PipelineAction β → Bool
  | .advance c => (p.store.calls c).all fun call => p.store.record.all fun old =>
      !call.evicts old || p.isFinished old.claimant
  | _ => true

def CallsFit (p : Pipeline β) : Prop :=
  ∀ c call, p.store.calls c = some call →
    (∀ i, c.request = some i → ∃ stage, p.requests i = some stage ∧ stage.call i = some c) ∧
    ∀ k, call.kind = some k → c.kind = k

inductive Motion (p p' : Pipeline β) : PipelineAction β → Prop
  /-- The record stays, and a lock is at most given up. -/
  | quiet {a} (hrecord : p'.store.record = p.store.record)
      (hpending : ∀ c w, p'.store.pending = some (c, w) → p.store.pending = some (c, w))
      (hhistory : ∃ es, p'.store.history = p.store.history ++ es ∧ ∀ e ∈ es, e.isRead = true)
      (hrank : ∀ j, p.rank j ≤ p'.rank j ∧ (2 ≤ p'.rank j → p'.rank j ≤ 4 → 2 ≤ p.rank j))
      (heffects : p'.effects = p.effects ∨ ∃ i, p.rank i = 2 ∧ p'.rank i = 3 ∧
        p'.effects = p.effects ++ [(i, windowsClosed p.store.history)]) : Motion p p' a
  /-- A statement locks the record. -/
  | locks {c call w} (hcall : p.store.calls c = some call) (hfree : p.store.pending = none)
      (hpending : p'.store.pending = some (c, w)) (hready : w.Ready c p.store.clock p.store.record)
      (hkind : call.kind = some w.kind) (hevicts : ∀ old, w.evicted = some old → call.evicts old = true)
      (hrecord : p'.store.record = p.store.record) (hhistory : p'.store.history = p.store.history)
      (hrequests : p'.requests = p.requests) (heffects : p'.effects = p.effects) : Motion p p' (.advance c)
  /-- The write that holds the lock commits. -/
  | commits {a c w} (hheld : p.store.pending = some (c, w)) (hpending : p'.store.pending = none)
      (hrecord : p'.store.record = w.row) (hhistory : p'.store.history = p.store.history ++ w.events c)
      (hrank : ∀ j, p.rank j ≤ p'.rank j ∧
        (2 ≤ p'.rank j → p'.rank j ≤ 4 → (2 ≤ p.rank j ∧ c ≠ .release j) ∨ (c = .claim j ∧ w.kind = .claim)))
      (heffects : p'.effects = p.effects) : Motion p p' a

theorem call_request {i : Nat} {stage : Stage β} {c : CallId} (h : stage.call i = some c) :
    c.request = some i := by
  cases stage <;> cases h <;> rfl

@[simp] theorem rank_enter (p : Pipeline β) (i j : Nat) (stage : Stage β) :
    (p.enter i stage).rank j = if j = i then stage.rank else p.rank j := by
  by_cases hji : j = i
  · subst hji
    simp [rank, enter]
  · simp [rank, enter, hji]

/-- A request moves to another stage: its old call is closed, and only the new one may be open. -/
theorem callsFit_enter {p p' : Pipeline β} (h : p.CallsFit) {i : Nat} (stage : Stage β)
    (hreq : p'.requests = Function.update p.requests i (some stage))
    (hcalls : ∀ c call, p'.store.calls c = some call → (stage.call i = some c ∧ ∀ k, call.kind = some k → c.kind = k) ∨
      (p.store.calls c = some call ∧ ∀ old, p.requests i = some old → old.call i ≠ some c)) : p'.CallsFit := by
  intro c call hc
  rcases hcalls c call hc with ⟨hnew,hkind⟩ | ⟨hold,hne⟩
  · refine ⟨fun j hj => ?_,hkind⟩
    cases (call_request hnew).symm.trans hj
    exact ⟨stage,by simp [hreq],hnew⟩
  · obtain ⟨hawaited,hkind⟩ := h c call hold
    refine ⟨fun j hj => ?_,hkind⟩
    obtain ⟨old,hold,hc⟩ := hawaited j hj
    have hji : j ≠ i := by
      rintro rfl
      exact hne old hold hc
    exact ⟨old,by simp [hreq, hji, hold],hc⟩

theorem begin_some {s s' : Store CallId β} {c : CallId} {op : Operation β}
    (h : s.step (.begin c op) = some s') :
    s.calls c = none ∧ s' = { s.goto c op.start with rounds := Function.update s.rounds c 0 } := by
  simp only [Store.step] at h
  split at h
  · exact ⟨by assumption,(Option.some.inj h).symm⟩
  · cases h

/-- Where the request stands whose call is open. -/
theorem rank_of_call {p : Pipeline β} (h : p.CallsFit) {c : CallId} {call : Call β}
    (hc : p.store.calls c = some call) {i : Nat} (hi : c.request = some i) :
    (c = .claim i ∧ p.rank i = 1) ∨ (c = .complete i ∧ ∃ response, p.requests i = some (.completing response)) ∨
      (c = .release i ∧ p.rank i = 4) := by
  obtain ⟨stage,hstage,hcall⟩ := (h c call hc).1 i hi
  cases stage <;> cases hcall
  · exact .inl ⟨rfl,by simp [rank, hstage, Stage.rank]⟩
  · exact .inr (.inl ⟨rfl,_,hstage⟩)
  · exact .inr (.inr ⟨rfl,by simp [rank, hstage, Stage.rank]⟩)

structure CallEnds (p p' : Pipeline β) (c : CallId) (fresh : Prop) : Prop where
  fits : p'.CallsFit
  rank : ∀ j, p.rank j ≤ p'.rank j ∧
    (2 ≤ p'.rank j → p'.rank j ≤ 4 → (2 ≤ p.rank j ∧ c ≠ .release j) ∨ (c = .claim j ∧ fresh))
  effects : p'.effects = p.effects

theorem callEnds_enter {p p' : Pipeline β} (h : p.CallsFit) {c : CallId} {call : Call β} {fresh : Prop}
    (hc : p.store.calls c = some call) {i : Nat} (hi : c.request = some i) (stage : Stage β)
    (hreq : p'.requests = Function.update p.requests i (some stage)) (heffects : p'.effects = p.effects)
    (hcalls : ∀ c' call', p'.store.calls c' = some call' → (stage.call i = some c' ∧ ∀ k, call'.kind = some k → c'.kind = k) ∨
      (c' ≠ c ∧ p.store.calls c' = some call'))
    (hup : p.rank i ≤ stage.rank)
    (hstage : stage.rank ≤ 4 → (2 ≤ p.rank i ∧ c ≠ .release i) ∨ (c = .claim i ∧ fresh)) : CallEnds p p' c fresh := by
  have hrank : ∀ j, p'.rank j = if j = i then stage.rank else p.rank j := by
    intro j
    rw [← rank_enter p i j stage]
    simp only [rank, enter, hreq]
  refine ⟨callsFit_enter h stage hreq ?_,?_,heffects⟩
  · intro c' call' hc'
    rcases hcalls c' call' hc' with hnew | ⟨hne,hold⟩
    · exact .inl hnew
    · refine .inr ⟨hold,fun old hold' hcall => hne ?_⟩
      obtain ⟨stage',hs',hcall'⟩ := (h c call hc).1 i hi
      cases hold'.symm.trans hs'
      exact Option.some.inj (hcall.symm.trans hcall')
  · intro j
    rw [hrank]
    by_cases hji : j = i
    · subst hji
      simp only [if_true]
      exact ⟨hup,fun _ hle => hstage hle⟩
    · simp only [hji, if_false]
      refine ⟨Nat.le_refl _,fun h2 _ => .inl ⟨h2,?_⟩⟩
      rintro rfl
      exact hji (Option.some.inj hi)

theorem calls_closed {f : CallId → Option (Call β)} {c c' : CallId} {call : Call β}
    (h : Function.update f c none c' = some call) : c' ≠ c ∧ f c' = some call := by
  have hne : c' ≠ c := by
    rintro rfl
    simp at h
  exact ⟨hne,by simpa [hne] using h⟩

private theorem rank_completing {p : Pipeline β} {i : Nat} {response : IdempotentResponse β}
    (h : p.requests i = some (.completing response)) : p.rank i = 3 := by
  simp [rank, h, Stage.rank]

theorem rank_le (p : Pipeline β) (i : Nat) : p.rank i ≤ 5 := by
  cases h : p.requests i with
  | none => simp [rank, h]
  | some stage => cases stage <;> simp [rank, h, Stage.rank]

/-- A sweep belongs to no request. -/
theorem callEnds_sweep {p p' : Pipeline β} (h : p.CallsFit) {n : Nat} {fresh : Prop}
    (hreq : p'.requests = p.requests) (heffects : p'.effects = p.effects)
    (hcalls : ∀ c' call', p'.store.calls c' = some call' → p.store.calls c' = some call') :
    CallEnds p p' (.sweep n) fresh := by
  refine ⟨fun c call hc => ?_,fun j => ?_,heffects⟩
  · rw [hreq]
    exact h c call (hcalls c call hc)
  · rw [rank, rank, hreq]
    exact ⟨Nat.le_refl _,fun h2 _ => .inl ⟨h2,by simp⟩⟩

private theorem callEnds_returned {p : Pipeline β} (h : p.CallsFit) {c : CallId} {call : Call β}
    (hc : p.store.calls c = some call) (store : Store CallId β)
    (hcalls : store.calls = Function.update p.store.calls c none) (o : Outcome β) :
    CallEnds p ({ p with store := store }.returned c o) c (o = .fresh) ∧
      ({ p with store := store }.returned c o).store = store := by
  have hold : ∀ c' call', store.calls c' = some call' → c' ≠ c ∧ p.store.calls c' = some call' := by
    intro c' call' hc'
    rw [hcalls] at hc'
    exact calls_closed hc'
  cases c with
  | claim i =>
    have hrank : p.rank i = 1 := by
      rcases rank_of_call h hc rfl with ⟨_,hr⟩ | ⟨hne,_⟩ | ⟨hne,_⟩
      · exact hr
      · cases hne
      · cases hne
    cases o with
    | fresh =>
      refine ⟨callEnds_enter h hc rfl .handling rfl rfl (fun c' call' hc' => .inr (hold c' call' hc')) ?_ ?_,rfl⟩
      · simp [hrank, Stage.rank]
      · exact fun _ => .inr ⟨rfl,rfl⟩
    | _ =>
      refine ⟨callEnds_enter h hc rfl .finished rfl rfl (fun c' call' hc' => .inr (hold c' call' hc'))
        (rank_le p i) (by simp [Stage.rank]),rfl⟩
  | complete i =>
    obtain ⟨response,hr⟩ : ∃ response, p.requests i = some (.completing response) := by
      rcases rank_of_call h hc rfl with ⟨hne,_⟩ | ⟨_,hr⟩ | ⟨hne,_⟩
      · cases hne
      · exact hr
      · cases hne
    have hret : { p with store := store }.returned (.complete i) o = { p with store := store }.reply i (.answered response) := by
      simp [returned, hr]
    rw [hret]
    exact ⟨callEnds_enter h hc rfl .finished rfl rfl (fun c' call' hc' => .inr (hold c' call' hc'))
      (rank_le p i) (by simp [Stage.rank]),rfl⟩
  | release i =>
    exact ⟨callEnds_enter h hc rfl .finished rfl rfl (fun c' call' hc' => .inr (hold c' call' hc'))
      (rank_le p i) (by simp [Stage.rank]),rfl⟩
  | sweep n => exact ⟨callEnds_sweep h rfl rfl fun c' call' hc' => (hold c' call' hc').2,rfl⟩

private theorem callEnds_failed {p p' : Pipeline β} (h : p.CallsFit) {c : CallId} {call : Call β}
    (hc : p.store.calls c = some call) {store : Store CallId β} (ht : Tracked store)
    (hcalls : store.calls = Function.update p.store.calls c none)
    (hs : { p with store := store }.failed c = some p') :
    CallEnds p p' c False ∧ Tracked p'.store ∧ p'.store.record = store.record ∧
      p'.store.pending = store.pending ∧ p'.store.history = store.history := by
  have hold : ∀ c' call', store.calls c' = some call' → c' ≠ c ∧ p.store.calls c' = some call' := by
    intro c' call' hc'
    rw [hcalls] at hc'
    exact calls_closed hc'
  cases c with
  | claim i =>
    cases hs
    exact ⟨callEnds_enter h hc rfl .finished rfl rfl (fun c' call' hc' => .inr (hold c' call' hc'))
      (rank_le p i) (by simp [Stage.rank]),ht,rfl,rfl,rfl⟩
  | complete i =>
    obtain ⟨response,hr⟩ : ∃ response, p.requests i = some (.completing response) := by
      rcases rank_of_call h hc rfl with ⟨hne,_⟩ | ⟨_,hr⟩ | ⟨hne,_⟩
      · cases hne
      · exact hr
      · cases hne
    obtain ⟨store',hbegin,rfl⟩ := Option.map_eq_some_iff.mp hs
    obtain ⟨_,rfl⟩ := begin_some hbegin
    refine ⟨callEnds_enter h hc rfl .releasing rfl rfl ?_ ?_ ?_,tracked_step ht hbegin,rfl,rfl,rfl⟩
    · intro c' call' hc'
      by_cases hrel : c' = .release i
      · subst hrel
        cases (Function.update_self ..).symm.trans hc'
        exact .inl ⟨rfl,fun k hk => by cases hk; rfl⟩
      · exact .inr (hold c' call' ((Function.update_of_ne hrel _ _).symm.trans hc'))
    · simp [rank_completing hr, Stage.rank]
    · exact fun _ => .inl ⟨by simp [rank_completing hr],by simp⟩
  | release i =>
    cases hs
    exact ⟨callEnds_enter h hc rfl .finished rfl rfl (fun c' call' hc' => .inr (hold c' call' hc'))
      (rank_le p i) (by simp [Stage.rank]),ht,rfl,rfl,rfl⟩
  | sweep n =>
    cases hs
    exact ⟨callEnds_sweep h rfl rfl fun c' call' hc' => (hold c' call' hc').2,ht,rfl,rfl,rfl⟩

/-- A call whose transaction commits: it publishes the write it holds, if it holds one. -/
theorem motion_commit {p p' : Pipeline β} {a : PipelineAction β} {c : CallId} {fresh : Prop}
    (hend : CallEnds p p' c fresh)
    (hfresh : fresh → ∃ w, p.store.pending = some (c, w) ∧ w.kind = .claim)
    (hrecord : p'.store.record = (p.store.commit c).record)
    (hpending : p'.store.pending = (p.store.commit c).pending)
    (hhistory : p'.store.history = (p.store.commit c).history) : Motion p p' a := by
  by_cases hp : ∃ w, p.store.pending = some (c, w)
  · obtain ⟨w,hp⟩ := hp
    rw [Store.commit_holder hp] at hrecord hpending hhistory
    refine .commits hp hpending hrecord hhistory (fun j => ⟨(hend.rank j).1,fun h2 h4 => ?_⟩) hend.effects
    rcases (hend.rank j).2 h2 h4 with hold | ⟨hc,hf⟩
    · exact .inl hold
    · obtain ⟨w',hw',hk⟩ := hfresh hf
      cases hp.symm.trans hw'
      exact .inr ⟨hc,hk⟩
  · rw [Store.commit_other fun w hw => hp ⟨w,hw⟩] at hrecord hpending hhistory
    refine .quiet hrecord (fun c' w hw => hpending ▸ hw) ⟨[],by simp [hhistory],by simp⟩
      (fun j => ⟨(hend.rank j).1,fun h2 h4 => ?_⟩) (.inl hend.effects)
    rcases (hend.rank j).2 h2 h4 with hold | ⟨_,hf⟩
    · exact hold.1
    · obtain ⟨w,hw,_⟩ := hfresh hf
      exact absurd ⟨w,hw⟩ hp

private theorem kind_of_fresh {c : CallId} {w : Write CallId β} (h : Earned (w.events c) c .fresh) :
    w.kind = .claim := by
  obtain ⟨requestHash,expiresAt,h⟩ := h
  cases w <;> simp [Write.events] at h <;> rfl

theorem promised_fresh {p : Pipeline β} (ht : Tracked p.store) {c : CallId}
    (hc : p.store.calls c = some (.commit .fresh)) : ∃ w, p.store.pending = some (c, w) ∧ w.kind = .claim := by
  rcases ht.promised c .fresh hc with ⟨hne,_⟩ | ⟨w,hw,he⟩
  · exact absurd rfl hne
  · exact ⟨w,hw,kind_of_fresh he⟩

/-- A step of the store that touches neither the row nor its lock. -/
theorem motion_pass {p : Pipeline β} {store : Store CallId β} {a : PipelineAction β}
    (hrecord : store.record = p.store.record) (hpending : store.pending = p.store.pending)
    (hhistory : ∃ es, store.history = p.store.history ++ es ∧ ∀ e ∈ es, e.isRead = true) :
    Motion p { p with store := store } a :=
  .quiet hrecord (fun _ _ hw => hpending ▸ hw) hhistory (fun _ => ⟨Nat.le_refl _,fun h _ => h⟩) (.inl rfl)

private theorem callsFit_goto {p : Pipeline β} (h : p.CallsFit) {store : Store CallId β} {c : CallId}
    {call next : Call β} (hc : p.store.calls c = some call)
    (hcalls : store.calls = Function.update p.store.calls c (some next))
    (hkind : ∀ k, next.kind = some k → call.kind = some k) : { p with store := store }.CallsFit := by
  intro c' call' hc'
  have hc'' : Function.update p.store.calls c (some next) c' = some call' := hcalls ▸ hc'
  by_cases hcc : c' = c
  · subst hcc
    cases (Function.update_self ..).symm.trans hc''
    exact ⟨(h c' call hc).1,fun k hk => (h c' call hc).2 k (hkind k hk)⟩
  · exact h c' call' ((Function.update_of_ne hcc _ _).symm.trans hc'')

/-- A statement of a call that does not end it. -/
theorem motion_moves {p : Pipeline β} (h : p.CallsFit) {c : CallId} {call : Call β} {store : Store CallId β}
    (hc : p.store.calls c = some call) (hne : ∀ o, call ≠ .commit o) (hm : Moves p.store c call store) :
    { p with store := store }.CallsFit ∧ Motion p { p with store := store } (.advance c) := by
  cases hm with
  | enter =>
    exact ⟨callsFit_goto h hc rfl fun k hk => hk,motion_pass rfl rfl ⟨[],by simp [Store.goto],by simp⟩⟩
  | pass _ _ _ _ hkind =>
    exact ⟨callsFit_goto h hc rfl hkind,motion_pass rfl rfl ⟨[],by simp [Store.goto],by simp⟩⟩
  | locks _ hfree hready _ hkind hevicts =>
    exact ⟨callsFit_goto h hc rfl fun k hk => (by cases hk),
      .locks hc hfree rfl hready hkind hevicts rfl rfl rfl rfl⟩
  | reads _ _ hread =>
    exact ⟨callsFit_goto h hc rfl fun k hk => (by cases hk),motion_pass rfl rfl ⟨[_],rfl,by simpa using hread⟩⟩
  | commits => exact absurd rfl (hne _)

/-- A request with no call open starts its next one. -/
theorem motion_begin {p p' : Pipeline β} (h : p.CallsFit) {a : PipelineAction β} {i : Nat} (stage : Stage β)
    {c : CallId} {op : Operation β} {store : Store CallId β} (hbegin : p.store.step (.begin c op) = some store)
    (hcall : stage.call i = some c) (hkind : ∀ k, op.start.kind = some k → c.kind = k)
    (hidle : ∀ old, p.requests i = some old → old.call i = none) (hstore : p'.store = store)
    (hreq : p'.requests = Function.update p.requests i (some stage)) (hup : p.rank i ≤ stage.rank)
    (hstage : 2 ≤ stage.rank → stage.rank ≤ 4 → 2 ≤ p.rank i)
    (heffects : p'.effects = p.effects ∨ ∃ i, p.rank i = 2 ∧ p'.rank i = 3 ∧
      p'.effects = p.effects ++ [(i, windowsClosed p.store.history)]) : p'.CallsFit ∧ Motion p p' a := by
  obtain ⟨_,rfl⟩ := begin_some hbegin
  have hrank : ∀ j, p'.rank j = if j = i then stage.rank else p.rank j := by
    intro j
    rw [← rank_enter p i j stage]
    simp only [rank, enter, hreq]
  refine ⟨callsFit_enter h stage hreq ?_,.quiet (by rw [hstore]; rfl) (fun c' w hw => ?_) ⟨[],?_,by simp⟩ ?_ heffects⟩
  · intro c' call' hc'
    rw [hstore] at hc'
    by_cases hcc : c' = c
    · subst hcc
      cases (Function.update_self ..).symm.trans hc'
      exact .inl ⟨hcall,hkind⟩
    · refine .inr ⟨(Function.update_of_ne hcc _ _).symm.trans hc',fun old hold => ?_⟩
      rw [hidle old hold]
      rintro ⟨⟩
  · rw [hstore] at hw
    exact hw
  · rw [hstore]
    exact (List.append_nil _).symm
  · intro j
    rw [hrank]
    by_cases hji : j = i
    · subst hji
      simpa using ⟨hup,hstage⟩
    · simp only [hji, if_false]
      exact ⟨Nat.le_refl _,fun h _ => h⟩

private theorem motion_of_advance {p p' : Pipeline β} (ht : Tracked p.store) (h : p.CallsFit) {c : CallId}
    (hs : p.step (.advance c) = some p') : Tracked p'.store ∧ p'.CallsFit ∧ Motion p p' (.advance c) := by
  obtain ⟨store,hstore,hp'⟩ := Option.map_eq_some_iff.mp hs
  obtain ⟨call,hc,hadv⟩ := Option.bind_eq_some_iff.mp hstore
  have hmoves := moves_of_advance (ht.timely c call hc) hadv
  rw [hc] at hp'
  by_cases hcommit : ∃ o, call = .commit o
  · obtain ⟨o,rfl⟩ := hcommit
    cases hadv
    obtain ⟨hend,hst⟩ := callEnds_returned h hc { p.store.commit c with answers := p.store.answers ++ [(c, o)] }
      (commit_calls p.store c) o
    subst hp'
    refine ⟨by rw [hst]; exact tracked_step ht hstore,hend.fits,?_⟩
    refine motion_commit hend ?_ (by rw [hst]) (by rw [hst]) (by rw [hst])
    rintro rfl
    exact promised_fresh ht hc
  · have hp : p' = { p with store := store } := by
      rw [← hp']
      cases call <;> first | rfl | exact absurd ⟨_,rfl⟩ hcommit
    subst hp
    obtain ⟨hfit,hmotion⟩ := motion_moves h hc (fun o ho => hcommit ⟨o,ho⟩) hmoves
    exact ⟨tracked_step ht hstore,hfit,hmotion⟩

/-- A rolled-back call gives up its lock and nothing else. -/
theorem motion_rollback {p p' : Pipeline β} {a : PipelineAction β} {c : CallId} (hend : CallEnds p p' c False)
    (hrecord : p'.store.record = p.store.record) (hpending : p'.store.pending = (p.store.rollback c).pending)
    (hhistory : p'.store.history = p.store.history) : Motion p p' a := by
  refine .quiet hrecord (fun c' w hw => ?_) ⟨[],by simp [hhistory],by simp⟩
    (fun j => ⟨(hend.rank j).1,fun h2 h4 => ?_⟩) (.inl hend.effects)
  · rw [hpending] at hw
    exact (Option.filter_eq_some_iff.mp hw).1
  · rcases (hend.rank j).2 h2 h4 with hold | ⟨_,hf⟩
    · exact hold.1
    · exact hf.elim

private theorem motion_of_fail {p p' : Pipeline β} (ht : Tracked p.store) (h : p.CallsFit) {c : CallId}
    (hs : p.step (.fail c) = some p') : Tracked p'.store ∧ p'.CallsFit ∧ Motion p p' (.fail c) := by
  obtain ⟨store,hstore,hf⟩ := Option.bind_eq_some_iff.mp hs
  obtain ⟨call,hc,rfl⟩ := Option.map_eq_some_iff.mp hstore
  obtain ⟨hend,ht',hr,hp,hh⟩ := callEnds_failed h hc (tracked_step ht hstore) rfl hf
  exact ⟨ht',hend.fits,motion_rollback hend hr hp hh⟩

private theorem motion_of_lose {p p' : Pipeline β} (ht : Tracked p.store) (h : p.CallsFit) {c : CallId}
    (hs : p.step (.lose c) = some p') : Tracked p'.store ∧ p'.CallsFit ∧ Motion p p' (.lose c) := by
  obtain ⟨store,hstore,hf⟩ := Option.bind_eq_some_iff.mp hs
  have hstep := hstore
  simp only [Store.step] at hstep
  split at hstep
  · rename_i o hc
    cases hstep
    obtain ⟨hend,ht',hr,hp,hh⟩ := callEnds_failed h hc (tracked_step ht hstore) (commit_calls p.store c) hf
    exact ⟨ht',hend.fits,motion_commit hend False.elim hr hp hh⟩
  · cases hstep

/-- A request ends with the call it waits for. -/
theorem motion_abandoned {p p' : Pipeline β} (h : p.CallsFit) {a : PipelineAction β} {c : CallId} {call : Call β} {i : Nat}
    (hc : p.store.calls c = some call) (hi : c.request = some i) (hstore : p'.store = p.store.rollback c)
    (hreq : p'.requests = Function.update p.requests i (some .finished)) (heffects : p'.effects = p.effects) :
    p'.CallsFit ∧ Motion p p' a := by
  have hend : CallEnds p p' c False := by
    refine callEnds_enter h hc hi .finished hreq heffects (fun c' call' hc' => .inr ?_) (rank_le p i) (by simp [Stage.rank])
    rw [hstore] at hc'
    exact calls_closed hc'
  exact ⟨hend.fits,motion_rollback hend (by rw [hstore]; rfl) (by rw [hstore]) (by rw [hstore]; rfl)⟩

/-- A request ends that waits for no call. -/
theorem motion_stopped {p p' : Pipeline β} (h : p.CallsFit) {a : PipelineAction β} {i : Nat} {stage : Stage β}
    (hstage : p.requests i = some stage) (hcall : stage.call i = none) (hstore : p'.store = p.store)
    (hreq : p'.requests = Function.update p.requests i (some .finished)) (heffects : p'.effects = p.effects) :
    p'.CallsFit ∧ Motion p p' a := by
  refine ⟨callsFit_enter h .finished hreq fun c call hc => .inr ⟨hstore ▸ hc,fun old hold => ?_⟩,?_⟩
  · cases hstage.symm.trans hold
    rw [hcall]
    rintro ⟨⟩
  · refine .quiet (by rw [hstore]) (fun _ _ hw => hstore ▸ hw) ⟨[],by simp [hstore],by simp⟩ (fun j => ?_) (.inl heffects)
    have hrank : p'.rank j = (p.enter i .finished).rank j := by simp only [rank, enter, hreq]
    rw [hrank, rank_enter]
    split
    · rename_i hji
      subst hji
      exact ⟨rank_le p j,by simp [Stage.rank]⟩
    · exact ⟨Nat.le_refl _,fun h _ => h⟩

private theorem motion_of_crash {p p' : Pipeline β} (ht : Tracked p.store) (h : p.CallsFit) {i : Nat}
    (hs : p.step (.crash i) = some p') : Tracked p'.store ∧ p'.CallsFit ∧ Motion p p' (.crash i) := by
  simp only [step] at hs
  split at hs
  · cases hs
  · rename_i stage hstage
    split at hs
    · rename_i c hcall
      obtain ⟨store,hstore,rfl⟩ := Option.map_eq_some_iff.mp hs
      obtain ⟨call,hc,rfl⟩ := Option.map_eq_some_iff.mp hstore
      exact ⟨tracked_step ht hstore,motion_abandoned h hc (call_request hcall) rfl rfl rfl⟩
    · rename_i hcall
      cases hs
      exact ⟨ht,motion_stopped h hstage hcall rfl rfl rfl⟩

theorem motion_of_tick {p : Pipeline β} (h : p.CallsFit) {a : PipelineAction β} {now : Int} {store : Store CallId β}
    (hs : p.store.step (.tick now) = some store) : { p with store := store }.CallsFit ∧ Motion p { p with store := store } a := by
  simp only [Store.step] at hs
  split at hs
  · cases hs
    exact ⟨h,motion_pass rfl rfl ⟨[],by simp,by simp⟩⟩
  · cases hs

/-- A sweep starts, which is no request's call. -/
theorem motion_of_sweep {p : Pipeline β} (h : p.CallsFit) {a : PipelineAction β} {n : Nat} {now : Int}
    {store : Store CallId β} (hs : p.store.step (.begin (.sweep n) (.sweep now)) = some store) :
    { p with store := store }.CallsFit ∧ Motion p { p with store := store } a := by
  obtain ⟨_,rfl⟩ := begin_some hs
  refine ⟨fun c call hc => ?_,motion_pass rfl rfl ⟨[],(List.append_nil _).symm,by simp⟩⟩
  by_cases hcc : c = .sweep n
  · subst hcc
    cases (Function.update_self ..).symm.trans hc
    exact ⟨fun i hi => (by cases hi),fun k hk => by cases hk; rfl⟩
  · exact h c call ((Function.update_of_ne hcc _ _).symm.trans hc)

/-- The step lemma: every step of the pipeline is one of the motions. -/
theorem motion_of_step {p p' : Pipeline β} {a : PipelineAction β} (ht : Tracked p.store) (h : p.CallsFit)
    (hs : p.step a = some p') : Tracked p'.store ∧ p'.CallsFit ∧ Motion p p' a := by
  cases a with
  | tick now =>
    obtain ⟨store,hstore,rfl⟩ := Option.map_eq_some_iff.mp hs
    exact ⟨tracked_step ht hstore,motion_of_tick h hstore⟩
  | arrive i requestHash =>
    simp only [step] at hs
    split at hs
    · rename_i hnone
      obtain ⟨store,hstore,rfl⟩ := Option.map_eq_some_iff.mp hs
      refine ⟨tracked_step ht hstore,motion_begin h .claiming hstore rfl (fun k hk => by cases hk; rfl) ?_ rfl
        rfl ?_ (by simp [Stage.rank]) (.inl rfl)⟩
      · intro old hold
        cases hnone.symm.trans hold
      · simp [rank, hnone]
    · cases hs
  | sweep n now =>
    obtain ⟨store,hstore,rfl⟩ := Option.map_eq_some_iff.mp hs
    exact ⟨tracked_step ht hstore,motion_of_sweep h hstore⟩
  | advance c => exact motion_of_advance ht h hs
  | fail c => exact motion_of_fail ht h hs
  | lose c => exact motion_of_lose ht h hs
  | succeed i response =>
    simp only [step] at hs
    split at hs
    · rename_i hstage
      have hrank : p.rank i = 2 := by simp [rank, hstage, Stage.rank]
      obtain ⟨store,hstore,rfl⟩ := Option.map_eq_some_iff.mp hs
      refine ⟨tracked_step ht hstore,motion_begin h (.completing response) hstore rfl
        (fun k hk => by cases hk; rfl) ?_ rfl rfl (by simp [hrank, Stage.rank]) (by simp [hrank])
        (.inr ⟨i,hrank,by simp [rank, enter, Stage.rank],rfl⟩)⟩
      intro old hold
      cases hstage.symm.trans hold
      rfl
    · cases hs
  | throw i =>
    simp only [step] at hs
    split at hs
    · rename_i hstage
      have hrank : p.rank i = 2 := by simp [rank, hstage, Stage.rank]
      obtain ⟨store,hstore,rfl⟩ := Option.map_eq_some_iff.mp hs
      refine ⟨tracked_step ht hstore,motion_begin h .releasing hstore rfl
        (fun k hk => by cases hk; rfl) ?_ rfl rfl (by simp [hrank, Stage.rank]) (by simp [hrank]) (.inl rfl)⟩
      intro old hold
      cases hstage.symm.trans hold
      rfl
    · cases hs
  | crash i => exact motion_of_crash ht h hs

structure Guarded (p : Pipeline β) : Prop where
  tracked : Tracked p.store
  fits : p.CallsFit
  holder : ∀ c w, p.store.pending = some (c, w) → c.kind = w.kind
  /-- A record is being taken for its deadline only from a finished request. -/
  taken : ∀ c w old i, p.store.pending = some (c, w) → w.evicted = some old → old.claimant = .claim i → p.rank i = 5
  /-- The record is the claim of whoever has still to settle. -/
  own : ∀ i, 2 ≤ p.rank i → p.rank i ≤ 4 → ∃ r, p.store.record = some r ∧ r.claimant = .claim i
  settles : SettlesOwn p.store.history

private theorem guarded_initial : Guarded (initial : Pipeline β) where
  tracked := tracked_initial
  fits _ _ h := by cases h
  holder _ _ h := by cases h
  taken _ _ _ _ h := by cases h
  own i h := by simp [rank, initial] at h
  settles := ⟨fun _ _ _ h => (by cases h),fun _ _ h => (by cases h)⟩

private theorem settlesOwn_append {es es' : List (Event CallId β)} (h : SettlesOwn es) (h' : SettlesOwn es') :
    SettlesOwn (es ++ es') := by
  refine ⟨fun i claim response hm => ?_,fun i claim hm => ?_⟩
  · rcases List.mem_append.mp hm with hm | hm
    · exact h.1 i claim response hm
    · exact h'.1 i claim response hm
  · rcases List.mem_append.mp hm with hm | hm
    · exact h.2 i claim hm
    · exact h'.2 i claim hm

private theorem settlesOwn_reads {es : List (Event CallId β)} (h : ∀ e ∈ es, e.isRead = true) : SettlesOwn es :=
  ⟨fun _ _ _ hm => (by cases h _ hm),fun _ _ hm => (by cases h _ hm)⟩

/-- The request behind the lock is the claimant of the record, when it is a settle that holds it. -/
theorem holder_owns {p : Pipeline β} (h : Guarded p) {c : CallId} {w : Write CallId β}
    (hw : p.store.pending = some (c, w)) {i : Nat} (hc : c = .complete i ∨ c = .release i) :
    ∃ r, p.store.record = some r ∧ r.claimant = .claim i := by
  obtain ⟨_,o,ho⟩ := h.tracked.ready c w hw
  have hrank : p.rank i = 3 ∨ p.rank i = 4 := by
    rcases rank_of_call h.fits ho (i := i) (by rcases hc with rfl | rfl <;> rfl) with ⟨hc',_⟩ | ⟨_,_,hr⟩ | ⟨_,hr⟩
    · rcases hc with rfl | rfl <;> cases hc'
    · exact .inl (rank_completing hr)
    · exact .inr hr
  exact h.own i (by omega) (by omega)

private theorem settlesOwn_commit {p : Pipeline β} (h : Guarded p) {c : CallId} {w : Write CallId β}
    (hw : p.store.pending = some (c, w)) : SettlesOwn (w.events c) := by
  have hready := (h.tracked.ready c w hw).1
  refine ⟨fun i claim response hm => ?_,fun i claim hm => ?_⟩
  · cases w <;> simp [Write.events] at hm
    rename_i old response
    obtain ⟨hc,rfl,_⟩ := hm
    obtain ⟨r,hr,hown⟩ := holder_owns h hw (i := i) (.inl hc.symm)
    cases hready.1.symm.trans hr
    exact hown
  · cases w <;> simp [Write.events] at hm
    rename_i old
    obtain ⟨hc,rfl⟩ := hm
    obtain ⟨r,hr,hown⟩ := holder_owns h hw (i := i) (.inr hc.symm)
    cases hready.1.symm.trans hr
    exact hown

/-- After a commit the record is the claim of whoever has still to settle. -/
private theorem own_commit {p p' : Pipeline β} (h : Guarded p) {c : CallId} {w : Write CallId β}
    (hw : p.store.pending = some (c, w)) (hrecord : p'.store.record = w.row)
    (hrank : ∀ j, p.rank j ≤ p'.rank j ∧
      (2 ≤ p'.rank j → p'.rank j ≤ 4 → (2 ≤ p.rank j ∧ c ≠ .release j) ∨ (c = .claim j ∧ w.kind = .claim)))
    (i : Nat) (h2 : 2 ≤ p'.rank i) (h4 : p'.rank i ≤ 4) : ∃ r, p'.store.record = some r ∧ r.claimant = .claim i := by
  have hready := (h.tracked.ready c w hw).1
  rw [hrecord]
  rcases (hrank i).2 h2 h4 with ⟨hi,hne⟩ | ⟨rfl,hk⟩
  · obtain ⟨r,hr,hown⟩ := h.own i hi (Nat.le_trans (hrank i).1 h4)
    cases w with
    | insert row => cases hready.1.symm.trans hr
    | reclaim old row =>
      cases hready.1.symm.trans hr
      have := h.taken c _ r i hw rfl hown
      have := (hrank i).1
      omega
    | complete old response =>
      cases hready.1.symm.trans hr
      exact ⟨_,rfl,hown⟩
    | release old =>
      -- the releaser is the claimant, and the claimant is this request
      exfalso
      cases c with
      | release j =>
        obtain ⟨r',hr',hown'⟩ := holder_owns h hw (.inr rfl)
        cases hr.symm.trans hr'
        cases hown.symm.trans hown'
        exact hne rfl
      | _ => cases h.holder _ _ hw
    | sweep old now =>
      cases hready.1.symm.trans hr
      have := h.taken c _ r i hw rfl hown
      have := (hrank i).1
      omega
  · cases w with
    | insert row =>
      obtain ⟨_,_,_,rfl⟩ := hready
      exact ⟨_,rfl,rfl⟩
    | reclaim old row =>
      obtain ⟨_,_,_,rfl,_⟩ := hready
      exact ⟨_,rfl,rfl⟩
    | _ => cases hk

theorem guarded_of_motion {p p' : Pipeline β} {a : PipelineAction β} (h : Guarded p)
    (hok : p.settlesBeforeLapse a = true) (ht : Tracked p'.store) (hfits : p'.CallsFit) (hm : Motion p p' a) :
    Guarded p' := by
  cases hm with
  | quiet hrecord hpending hhistory hrank _ =>
    obtain ⟨es,hes,hread⟩ := hhistory
    refine ⟨ht,hfits,fun c w hw => h.holder c w (hpending c w hw),fun c w old i hw he hc => ?_,fun i h2 h4 => ?_,?_⟩
    · have := h.taken c w old i (hpending c w hw) he hc
      have := (hrank i).1
      have := rank_le p' i
      omega
    · rw [hrecord]
      exact h.own i ((hrank i).2 h2 h4) (Nat.le_trans (hrank i).1 h4)
    · rw [hes]
      exact settlesOwn_append h.settles (settlesOwn_reads hread)
  | @locks c call w hcall _ hpending hready hkind hevicts hrecord hhistory hrequests _ =>
    have hrank : ∀ j, p'.rank j = p.rank j := fun j => by rw [rank, rank, hrequests]
    refine ⟨ht,hfits,fun c' w' hw => ?_,fun c' w' old i hw he hc => ?_,fun i h2 h4 => ?_,hhistory ▸ h.settles⟩
    · obtain ⟨rfl,rfl⟩ : c = c' ∧ w = w' := by simpa using hpending.symm.trans hw
      exact (h.fits c call hcall).2 _ hkind
    · obtain ⟨rfl,rfl⟩ : c = c' ∧ w = w' := by simpa using hpending.symm.trans hw
      -- the record locked for its deadline is the committed one, whose claimant has finished
      have hold : p.store.record = some old := by
        cases w with
        | reclaim old' row =>
          cases he
          exact hready.1
        | sweep old' now =>
          cases he
          exact hready.1
        | _ => cases he
      rw [hrank]
      simpa [settlesBeforeLapse, hcall, hold, hevicts old he, hc, isFinished] using hok
    · rw [hrank] at h2 h4
      rw [hrecord]
      exact h.own i h2 h4
  | commits hheld hpending hrecord hhistory hrank _ =>
    refine ⟨ht,hfits,fun c' w' hw => ?_,fun c' w' old i hw => ?_,own_commit h hheld hrecord hrank,?_⟩
    · cases hpending.symm.trans hw
    · cases hpending.symm.trans hw
    · rw [hhistory]
      exact settlesOwn_append h.settles (settlesOwn_commit h hheld)

theorem guarded_step {p p' : Pipeline β} {a : PipelineAction β} (h : Guarded p)
    (hok : p.settlesBeforeLapse a = true) (hs : p.step a = some p') : Guarded p' := by
  obtain ⟨ht,hfits,hm⟩ := motion_of_step h.tracked h.fits hs
  exact guarded_of_motion h hok ht hfits hm

theorem guarded_of_run {ok : Pipeline β → PipelineAction β → Prop}
    (hok : ∀ p a, ok p a → p.settlesBeforeLapse a = true) {acts : List (PipelineAction β)} {p : Pipeline β}
    (hr : Run step ok initial acts p) : Guarded p :=
  hr.invariant guarded_initial fun _ _ _ h ha hs => guarded_step h (hok _ _ ha) hs

/-- Every settle of every run is of its own claim, as long as no record is taken for its
deadline from a request that has still to settle it. -/
theorem settlesOwn_of_settlesBeforeLapse {acts : List (PipelineAction β)} {p : Pipeline β}
    (hr : Run step (fun p a => p.settlesBeforeLapse a = true) initial acts p) : SettlesOwn p.store.history :=
  (guarded_of_run (fun _ _ h => h) hr).settles

def settledThenReclaimed : List (PipelineAction Nat) :=
  [.arrive 0 "a", .advance (.claim 0), .advance (.claim 0), .advance (.claim 0),
   .succeed 0 ⟨201, some 5⟩, .advance (.complete 0), .advance (.complete 0), .tick 86400000,
   .arrive 1 "b", .advance (.claim 1), .advance (.claim 1), .advance (.claim 1), .advance (.claim 1), .advance (.claim 1),
   .throw 1, .advance (.release 1), .advance (.release 1)]

theorem settlesOwn_of_settledThenReclaimed :
    ∃ p, Run step (fun p a => p.settlesBeforeLapse a = true) initial settledThenReclaimed p ∧
      SettlesOwn p.store.history ∧ .released (.release 1) (.claim 1) ∈ p.store.history := by
  have hrun : ∃ p, exec step (fun p a => p.settlesBeforeLapse a = true) initial settledThenReclaimed = some p ∧
      .released (.release 1) (.claim 1) ∈ p.store.history := ⟨_,rfl,by decide⟩
  obtain ⟨p,hp,hm⟩ := hrun
  exact ⟨p,Run.of_exec hp,settlesOwn_of_settlesBeforeLapse (Run.of_exec hp),hm⟩

/-- The first handler is still running when its record expires; the key is reclaimed, and then
the first handler throws. -/
def lateRelease : List (PipelineAction Nat) :=
  [.arrive 0 "a", .advance (.claim 0), .advance (.claim 0), .advance (.claim 0), .tick 86400000,
   .arrive 1 "a", .advance (.claim 1), .advance (.claim 1), .advance (.claim 1), .advance (.claim 1), .advance (.claim 1),
   .throw 0, .advance (.release 0), .advance (.release 0)]

/-- Its release deletes the record of the second request, which is still in progress. -/
theorem lateRelease_deletes_later_claim :
    ∃ p, Run step Always initial lateRelease p ∧ ¬ SettlesOwn p.store.history := by
  have hrun : ∃ p, exec step Always initial lateRelease = some p ∧
      .released (.release 0) (.claim 1) ∈ p.store.history := ⟨_,rfl,by decide⟩
  obtain ⟨p,hp,hm⟩ := hrun
  exact ⟨p,Run.of_exec hp,fun h => by cases h.2 0 (.claim 1) hm⟩

end Pipeline
end Nivara.Idempotency
