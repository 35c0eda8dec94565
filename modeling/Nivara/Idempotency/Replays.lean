import Nivara.Idempotency.Scope
import Nivara.Idempotency.SettleOwnership

/-! Whose answers are replayed. All requests of all callers and all inbound events share one table of
records; each record is reached through its tenant, scope and key. A replayed answer was stored by a
request of the same caller, line, key and body, as long as every settle finds its own record. -/
namespace Nivara.Idempotency
open Transactions

/-! ## Labels: what a record carries from the call that wrote it -/
section Labels
variable {ι β : Type} (P : ι → String → Prop) (Q : ι → Option (IdempotentResponse β) → Prop)

def Call.requestHash : Call β → Option (Option String)
  | .claim requestHash _ => some requestHash
  | .insert requestHash _ _ => some requestHash
  | .contend requestHash _ => some requestHash
  | .reclaim requestHash _ _ => some requestHash
  | .read requestHash _ => some requestHash
  | _ => none

def Call.response : Call β → Option (Option (IdempotentResponse β))
  | .complete response => some response
  | _ => none

def Call.Labelled (c : ι) (call : Call β) : Prop :=
  (∀ h, call.requestHash = some h → ∃ hash, h = some hash ∧ P c hash) ∧ ∀ r, call.response = some r → Q c r

def Write.Labelled (c : ι) : Write ι β → Prop
  | .insert row => P row.claimant row.requestHash
  | .reclaim _ row => P row.claimant row.requestHash
  | .complete _ response => Q c response
  | _ => True

def Event.Labelled : Event ι β → Prop
  | .completed b _ response => Q b response
  | .replayed b claim _ => ∃ hash, P b hash ∧ P claim hash
  | _ => True

/-- Everything in the store carries the label of the call it comes from. -/
structure Store.Labelled (s : Store ι β) : Prop where
  calls : ∀ c call, s.calls c = some call → call.Labelled P Q c
  pending : ∀ c w, s.pending = some (c, w) → w.Labelled P Q c
  record : ∀ r, s.record = some r → P r.claimant r.requestHash
  history : ∀ e ∈ s.history, e.Labelled P Q

end Labels

namespace Store.Labelled
variable {ι β : Type} {P P' : ι → String → Prop} {Q : ι → Option (IdempotentResponse β) → Prop} {s s' : Store ι β}
  {c : ι}

theorem initial : (Store.initial : Store ι β).Labelled P Q where
  calls _ _ h := by cases h
  pending _ _ h := by cases h
  record _ h := by cases h
  history _ h := by cases h

/-- Labels that hold go on holding. -/
theorem mono (h : s.Labelled P Q) (hP : ∀ c hash, P c hash → P' c hash) : s.Labelled P' Q where
  calls c call hc := ⟨fun x hx => by
    obtain ⟨hash,rfl,hp⟩ := (h.calls c call hc).1 x hx
    exact ⟨hash,rfl,hP c hash hp⟩,(h.calls c call hc).2⟩
  pending c w hw := by
    have hl := h.pending c w hw
    cases w with
    | insert row => exact hP _ _ hl
    | reclaim old row => exact hP _ _ hl
    | complete old response => exact hl
    | _ => trivial
  record r hr := hP _ _ (h.record r hr)
  history e he := by
    have hl := h.history e he
    cases e with
    | replayed b claim response =>
      obtain ⟨hash,hb,hc⟩ := hl
      exact ⟨hash,hP _ _ hb,hP _ _ hc⟩
    | completed b claim response => exact hl
    | _ => trivial

variable [DecidableEq ι]

/-- One call moves on; the lock, the record and the history stay labelled. -/
private theorem goto (h : s.Labelled P Q) (next : Option (Call β)) (hnext : ∀ call, next = some call → call.Labelled P Q c)
    (hcalls : s'.calls = Function.update s.calls c next)
    (hpending : ∀ c' w, s'.pending = some (c', w) → w.Labelled P Q c') (hrecord : ∀ r, s'.record = some r → P r.claimant r.requestHash)
    (hhistory : ∀ e ∈ s'.history, e.Labelled P Q) : s'.Labelled P Q := by
  refine ⟨fun c' call hc => ?_,hpending,hrecord,hhistory⟩
  rw [hcalls] at hc
  by_cases hcc : c' = c
  · subst hcc
    exact hnext call (by simpa using hc)
  · exact h.calls c' call (by simpa [hcc] using hc)

private theorem pass (h : s.Labelled P Q) {next : Call β} (hnext : next.Labelled P Q c) : (s.goto c next).Labelled P Q :=
  h.goto (some next) (fun _ he => by cases he; exact hnext) rfl h.pending h.record h.history

private theorem lock (h : s.Labelled P Q) {w : Write ι β} {o : Outcome β} (hw : w.Labelled P Q c) :
    (s.lock c w o).Labelled P Q := by
  refine h.goto (some (.commit o)) (fun _ he => ?_) rfl (fun c' w' hw' => ?_) h.record h.history
  · cases he
    exact ⟨fun _ hx => (by cases hx),fun _ hx => (by cases hx)⟩
  · cases hw'
    exact hw

private theorem tryLock (h : s.Labelled P Q) {w : Write ι β} {o : Outcome β} (hs : s.tryLock c w o = some s')
    (hw : w.Labelled P Q c) : s'.Labelled P Q := by
  unfold Store.tryLock at hs
  split at hs
  · cases hs
    exact h.lock hw
  · cases hs

private theorem settle (h : s.Labelled P Q) {p : Held ι β → Prop} [DecidablePred p] {w : Held ι β → Write ι β}
    (hs : s.settle c p w = some s') (hw : ∀ old, (w old).Labelled P Q c) : s'.Labelled P Q := by
  have hquiet : (s.goto c (.commit .settled)).Labelled P Q :=
    h.pass ⟨fun _ hx => (by cases hx),fun _ hx => (by cases hx)⟩
  unfold Store.settle at hs
  split at hs
  · cases hs
    exact hquiet
  · split at hs
    · exact h.tryLock hs (hw _)
    · cases hs
      exact hquiet

omit [DecidableEq ι] in
private theorem events {w : Write ι β} (hw : w.Labelled P Q c) : ∀ e ∈ w.events c, e.Labelled P Q := by
  intro e he
  cases w with
  | complete old response =>
    cases List.mem_singleton.mp he
    exact hw
  | insert row =>
    cases List.mem_singleton.mp he
    trivial
  | release old =>
    cases List.mem_singleton.mp he
    trivial
  | sweep old now =>
    cases List.mem_singleton.mp he
    trivial
  | reclaim old row =>
    rcases List.mem_cons.mp he with rfl | he
    · trivial
    · cases List.mem_singleton.mp he
      trivial

omit [DecidableEq ι] in
private theorem row (h : s.Labelled P Q) {w : Write ι β} {clock : Int} (hw : w.Labelled P Q c)
    (hready : w.Ready c clock s.record) (r : Held ι β) (hr : w.row = some r) : P r.claimant r.requestHash := by
  cases w with
  | insert row =>
    cases hr
    exact hw
  | reclaim old row =>
    cases hr
    exact hw
  | complete old response =>
    cases hr
    exact h.record old hready.1
  | release old => cases hr
  | sweep old now => cases hr

private theorem commit (h : s.Labelled P Q) (ht : Tracked s) (c : ι) : (s.commit c).Labelled P Q := by
  by_cases hp : ∃ w, s.pending = some (c, w)
  · obtain ⟨w,hp⟩ := hp
    rw [Store.commit_holder hp]
    have hw := h.pending c w hp
    refine h.goto none (fun _ he => by cases he) rfl (fun _ _ hx => by cases hx) (h.row hw (ht.ready c w hp).1) fun e he => ?_
    rcases List.mem_append.mp he with he | he
    · exact h.history e he
    · exact events hw e he
  · rw [Store.commit_other fun w hw => hp ⟨w,hw⟩]
    exact h.goto none (fun _ he => by cases he) rfl h.pending h.record h.history

omit [DecidableEq ι] in
/-- A claim that replays the record it reads has the hash of that record. -/
private theorem read (h : s.Labelled P Q) {hash : String} {held : Held ι β} (hc : P c hash) (hr : s.record = some held) :
    (readEvent c (some hash) held).Labelled P Q := by
  rcases read_cases c (some hash) held with ⟨_,_,_,_,he⟩ | ⟨_,he⟩ | ⟨ho,_,he⟩
  · rw [he]
    trivial
  · rw [he]
    trivial
  · rw [he]
    have hsame : hash = held.requestHash := by
      by_contra hne
      simp [outcomeOf, hne] at ho
    exact ⟨hash,hc,hsame ▸ h.record held hr⟩

theorem advance (h : s.Labelled P Q) (ht : Tracked s) {call : Call β} (hc : s.calls c = some call)
    (hs : s.advance c call = some s') : s'.Labelled P Q := by
  have hl := h.calls c call hc
  have hplain : ∀ o : Outcome β, (Call.commit o).Labelled P Q c := fun o =>
    ⟨fun _ hx => (by cases hx),fun _ hx => (by cases hx)⟩
  have hkeep : ∀ {next : Call β}, next.requestHash = call.requestHash → next.response = none → next.Labelled P Q c :=
    fun hn hr => ⟨fun x hx => hl.1 x (hn ▸ hx),fun x hx => by cases hr.symm.trans hx⟩
  cases call with
  | claim requestHash remaining =>
    cases hs
    exact h.goto _ (fun _ he => by cases he; exact hkeep rfl rfl) rfl h.pending h.record h.history
  | insert requestHash remaining now =>
    obtain ⟨hash,rfl,hp⟩ := hl.1 _ rfl
    simp only [Store.advance] at hs
    split at hs
    · exact h.tryLock hs hp
    · split at hs
      · cases hs
      · cases hs
        exact h.pass (hkeep rfl rfl)
  | contend requestHash remaining =>
    cases hs
    exact h.pass (hkeep rfl rfl)
  | reclaim requestHash remaining now =>
    obtain ⟨hash,rfl,hp⟩ := hl.1 _ rfl
    simp only [Store.advance] at hs
    split at hs
    · cases hs
      exact h.pass (hkeep rfl rfl)
    · split at hs
      · exact h.tryLock hs hp
      · cases hs
        exact h.pass (hkeep rfl rfl)
  | read requestHash remaining =>
    obtain ⟨hash,rfl,hp⟩ := hl.1 _ rfl
    simp only [Store.advance] at hs
    split at hs
    · split at hs
      · cases hs
        exact h.pass (hkeep rfl rfl)
      · cases hs
        refine h.goto _ (fun _ he => by cases he; exact hplain _) rfl h.pending h.record fun e he => ?_
        rcases List.mem_append.mp he with he | he
        · exact h.history e he
        · cases List.mem_singleton.mp he
          trivial
    · rename_i held hheld
      cases hs
      refine h.goto _ (fun _ he => by cases he; exact hplain _) rfl h.pending h.record fun e he => ?_
      rcases List.mem_append.mp he with he | he
      · exact h.history e he
      · cases List.mem_singleton.mp he
        exact h.read hp hheld
  | complete response => exact h.settle (hs : s.settle .. = _) fun _ => hl.2 _ rfl
  | release => exact h.settle (hs : s.settle .. = _) fun _ => trivial
  | sweep now => exact h.settle (hs : s.settle .. = _) fun _ => trivial
  | commit o =>
    cases hs
    have h' := h.commit ht c
    exact ⟨h'.calls,h'.pending,h'.record,h'.history⟩

/-- Every step of the store keeps the labels, if a call starts with its own. -/
theorem step (h : s.Labelled P Q) (ht : Tracked s) {a : Action ι β}
    (hbegin : ∀ c op, a = .begin c op → op.start.Labelled P Q c) (hs : s.step a = some s') : s'.Labelled P Q := by
  cases a with
  | tick now =>
    simp only [Store.step] at hs
    split at hs
    · cases hs
      exact ⟨h.calls,h.pending,h.record,h.history⟩
    · cases hs
  | begin c op =>
    simp only [Store.step] at hs
    split at hs
    · cases hs
      exact h.goto _ (fun _ he => by cases he; exact hbegin c op rfl) rfl h.pending h.record h.history
    · cases hs
  | advance c =>
    obtain ⟨call,hc,hadv⟩ := Option.bind_eq_some_iff.mp hs
    exact h.advance ht hc hadv
  | abort c =>
    obtain ⟨_,_,rfl⟩ := Option.map_eq_some_iff.mp hs
    refine h.goto none (fun _ he => by cases he) rfl (fun c' w hw => ?_) h.record h.history
    exact h.pending c' w (Option.filter_eq_some_iff.mp hw).1
  | lose c =>
    simp only [Store.step] at hs
    split at hs
    · cases hs
      exact h.commit ht c
    · cases hs

end Store.Labelled

namespace Pipeline
variable {β : Type} {L L' : Nat → String → Prop} {p p' : Pipeline β} {a : PipelineAction β}

def Claims (L : Nat → String → Prop) (c : CallId) (hash : String) : Prop := ∃ i, c = .claim i ∧ L i hash

def Completes (c : CallId) (response : Option (IdempotentResponse β)) : Prop :=
  ∃ i r, c = .complete i ∧ response = some r

def Labelled (L : Nat → String → Prop) (p : Pipeline β) : Prop := p.store.Labelled (Claims L) Completes

@[simp] theorem returned_store (p : Pipeline β) (c : CallId) (o : Outcome β) : (p.returned c o).store = p.store := by
  cases c with
  | claim i => cases o <;> rfl
  | complete i =>
    simp only [returned]
    split <;> rfl
  | release i => rfl
  | sweep n => rfl

private theorem labelled_release (i : Nat) : (Operation.release : Operation β).start.Labelled (Claims L) Completes (.release i) :=
  ⟨fun _ hx => (by cases hx),fun _ hx => (by cases hx)⟩

private theorem labelled_begin (h : p.Labelled L) (ht : Tracked p.store) {c : CallId} {op : Operation β} {store : Store CallId β}
    (hop : op.start.Labelled (Claims L) Completes c) (hs : p.store.step (.begin c op) = some store) :
    store.Labelled (Claims L) Completes :=
  Store.Labelled.step h ht (fun _ _ he => by cases he; exact hop) hs

private theorem labelled_failed {store : Store CallId β} (h : store.Labelled (Claims L) Completes) (ht : Tracked store)
    {c : CallId} (hs : { p with store := store }.failed c = some p') : p'.Labelled L := by
  cases c with
  | complete i =>
    obtain ⟨store',hbegin,rfl⟩ := Option.map_eq_some_iff.mp hs
    exact labelled_begin (p := { p with store := store }) h ht (labelled_release i) hbegin
  | _ =>
    cases hs
    exact h

/-- A step keeps the labels, if a request arrives with its own. -/
theorem labelled_step (h : p.Labelled L) (ht : Tracked p.store) (harrive : ∀ i hash, a = .arrive i hash → L i hash)
    (hs : p.step a = some p') : p'.Labelled L := by
  cases a with
  | tick now =>
    obtain ⟨store,hstore,rfl⟩ := Option.map_eq_some_iff.mp hs
    exact Store.Labelled.step h ht (fun _ _ he => by cases he) hstore
  | arrive i hash =>
    simp only [step] at hs
    split at hs
    · obtain ⟨store,hstore,rfl⟩ := Option.map_eq_some_iff.mp hs
      refine labelled_begin h ht ⟨fun x hx => ?_,fun _ hx => (by cases hx)⟩ hstore
      cases hx
      exact ⟨hash,rfl,i,rfl,harrive i hash rfl⟩
    · cases hs
  | sweep n now =>
    obtain ⟨store,hstore,rfl⟩ := Option.map_eq_some_iff.mp hs
    exact labelled_begin h ht ⟨fun _ hx => (by cases hx),fun _ hx => (by cases hx)⟩ hstore
  | advance c =>
    obtain ⟨store,hstore,rfl⟩ := Option.map_eq_some_iff.mp hs
    have h' := Store.Labelled.step h ht (fun _ _ he => by cases he) hstore
    unfold Labelled
    split
    · rw [returned_store]
      exact h'
    · exact h'
  | fail c =>
    obtain ⟨store,hstore,hf⟩ := Option.bind_eq_some_iff.mp hs
    exact labelled_failed (Store.Labelled.step h ht (fun _ _ he => by cases he) hstore) (tracked_step ht hstore) hf
  | lose c =>
    obtain ⟨store,hstore,hf⟩ := Option.bind_eq_some_iff.mp hs
    exact labelled_failed (Store.Labelled.step h ht (fun _ _ he => by cases he) hstore) (tracked_step ht hstore) hf
  | succeed i response =>
    simp only [step] at hs
    split at hs
    · obtain ⟨store,hstore,rfl⟩ := Option.map_eq_some_iff.mp hs
      refine labelled_begin h ht ⟨fun _ hx => (by cases hx),fun x hx => ?_⟩ hstore
      cases hx
      exact ⟨i,response,rfl,rfl⟩
    · cases hs
  | throw i =>
    simp only [step] at hs
    split at hs
    · obtain ⟨store,hstore,rfl⟩ := Option.map_eq_some_iff.mp hs
      exact labelled_begin h ht (labelled_release i) hstore
    · cases hs
  | crash i =>
    simp only [step] at hs
    split at hs
    · cases hs
    · split at hs
      · obtain ⟨store,hstore,rfl⟩ := Option.map_eq_some_iff.mp hs
        exact Store.Labelled.step h ht (fun _ _ he => by cases he) hstore
      · cases hs
        exact h

/-- A replay is answered from the claim that found it, and from nowhere else. -/
private theorem replayed_claimed {store : Store CallId β} {i j code : Nat} {o : Outcome β} {body : Option β}
    (h : (i, .replayed code body) ∈ ({ p with store := store }.claimed j o).replies) :
    (i, .replayed code body) ∈ p.replies ∨ i = j ∧ ∃ stored, o = .replay stored ∧ replay stored = .replayed code body := by
  cases o with
  | replay stored =>
    rcases List.mem_append.mp h with h | h
    · exact .inl h
    · obtain ⟨rfl,he⟩ := Prod.mk.inj (List.mem_singleton.mp h)
      exact .inr ⟨rfl,stored,rfl,he.symm⟩
  | fresh => exact .inl h
  | settled => exact .inl h
  | inFlight =>
    rcases List.mem_append.mp h with h | h
    · exact .inl h
    · cases List.mem_singleton.mp h
  | mismatch =>
    rcases List.mem_append.mp h with h | h
    · exact .inl h
    · cases List.mem_singleton.mp h

private theorem replayed_failed {store : Store CallId β} {c : CallId} {i code : Nat} {body : Option β}
    (hs : { p with store := store }.failed c = some p') (h : (i, .replayed code body) ∈ p'.replies) :
    (i, .replayed code body) ∈ p.replies := by
  cases c with
  | claim j =>
    cases hs
    rcases List.mem_append.mp h with h | h
    · exact h
    · cases List.mem_singleton.mp h
  | complete j =>
    obtain ⟨_,_,rfl⟩ := Option.map_eq_some_iff.mp hs
    rcases List.mem_append.mp h with h | h
    · exact h
    · cases List.mem_singleton.mp h
  | release j =>
    cases hs
    exact h
  | sweep n =>
    cases hs
    exact h

theorem replayed_step {i code : Nat} {body : Option β} (hs : p.step a = some p') (h : (i, .replayed code body) ∈ p'.replies) :
    (i, .replayed code body) ∈ p.replies ∨
      ∃ stored, p.store.calls (.claim i) = some (.commit (.replay stored)) ∧ replay stored = .replayed code body := by
  cases a with
  | tick now =>
    obtain ⟨_,_,rfl⟩ := Option.map_eq_some_iff.mp hs
    exact .inl h
  | arrive j hash =>
    simp only [step] at hs
    split at hs
    · obtain ⟨_,_,rfl⟩ := Option.map_eq_some_iff.mp hs
      exact .inl h
    · cases hs
  | sweep n now =>
    obtain ⟨_,_,rfl⟩ := Option.map_eq_some_iff.mp hs
    exact .inl h
  | advance c =>
    obtain ⟨store,_,rfl⟩ := Option.map_eq_some_iff.mp hs
    split at h
    · rename_i o hc
      cases c with
      | claim j =>
        rcases replayed_claimed h with h | ⟨rfl,stored,rfl,he⟩
        · exact .inl h
        · exact .inr ⟨stored,hc,he⟩
      | complete j =>
        simp only [returned] at h
        split at h
        · rcases List.mem_append.mp h with h | h
          · exact .inl h
          · cases List.mem_singleton.mp h
        · exact .inl h
      | release j => exact .inl h
      | sweep n => exact .inl h
    · exact .inl h
  | fail c =>
    obtain ⟨_,_,hf⟩ := Option.bind_eq_some_iff.mp hs
    exact .inl (replayed_failed hf h)
  | lose c =>
    obtain ⟨_,_,hf⟩ := Option.bind_eq_some_iff.mp hs
    exact .inl (replayed_failed hf h)
  | succeed j response =>
    simp only [step] at hs
    split at hs
    · obtain ⟨_,_,rfl⟩ := Option.map_eq_some_iff.mp hs
      exact .inl h
    · cases hs
  | throw j =>
    simp only [step] at hs
    split at hs
    · obtain ⟨_,_,rfl⟩ := Option.map_eq_some_iff.mp hs
      rcases List.mem_append.mp h with h | h
      · exact .inl h
      · cases List.mem_singleton.mp h
    · cases hs
  | crash j =>
    simp only [step] at hs
    split at hs
    · cases hs
    · split at hs
      · obtain ⟨_,_,rfl⟩ := Option.map_eq_some_iff.mp hs
        exact .inl h
      · cases hs
        exact .inl h

theorem history_of_motion (h : Motion p p' a) : p.store.history ⊆ p'.store.history := by
  cases h with
  | quiet _ _ hhistory =>
    obtain ⟨es,hes,_⟩ := hhistory
    rw [hes]
    exact List.subset_append_left _ _
  | locks _ _ _ _ _ _ _ hhistory => rw [hhistory]; exact List.Subset.refl _
  | commits _ _ _ hhistory => rw [hhistory]; exact List.subset_append_left _ _

def ShowsReplays (p : Pipeline β) : Prop :=
  ∀ i code body, (i, .replayed code body) ∈ p.replies →
    ∃ claim stored, .replayed (.claim i) claim stored ∈ p.store.history ∧ replay stored = .replayed code body

theorem showsReplays_step (h : p.ShowsReplays) (hg : Guarded p) (hs : p.step a = some p') : p'.ShowsReplays := by
  intro i code body hm
  have hgrow := history_of_motion (motion_of_step hg.tracked hg.fits hs).2.2
  rcases replayed_step hs hm with hm | ⟨stored,hc,he⟩
  · obtain ⟨claim,stored,hh,he⟩ := h i code body hm
    exact ⟨claim,stored,hgrow hh,he⟩
  · rcases hg.tracked.promised _ _ hc with ⟨_,claim,hh⟩ | ⟨w,_,claim,hh⟩
    · exact ⟨claim,stored,hgrow hh,he⟩
    · cases w <;> simp [Write.events] at hh

end Pipeline

/-! ## All requests and all events, on one table -/

/-- Every record with what goes on at it, and the requests that have arrived. -/
structure Traffic (γ β : Type) where
  slots : SlotName → Pipeline β
  requests : Nat → Option (HttpRequest γ)

inductive TrafficAction (γ β : Type) where
  | tick (now : Int)
  | arrive (i : Nat) (request : HttpRequest γ)
  /-- Something goes on at a record: a call, a handler, a sweep, a failure. -/
  | on (slot : SlotName) (a : PipelineAction β)
  /-- The Slack adapter calls the store for an event. -/
  | event (tenantId : Id) (eventId : String) (a : Action CallId β)

def PipelineAction.isLocal {β : Type} : PipelineAction β → Bool
  | .tick _ => false
  | .arrive _ _ => false
  | _ => true

/-- A claim without a hash, a settle without a response, a release, or one of their statements. -/
def Action.isEvent {ι β : Type} : Action ι β → Bool
  | .tick _ => false
  | .begin _ (.claim requestHash) => requestHash.isNone
  | .begin _ (.complete response) => response.isNone
  | .begin _ (.sweep _) => false
  | _ => true

namespace Traffic
variable {γ β : Type} (requestFingerprint : γ → String)

def initial : Traffic γ β := ⟨fun _ => Pipeline.initial, fun _ => none⟩

def eventSlot (tenantId : Id) (eventId : String) : SlotName := ⟨tenantId, inboundEventScope "slack", eventId⟩

def step (t : Traffic γ β) : TrafficAction γ β → Option (Traffic γ β)
  -- no clock runs backwards
  | .tick now => some { t with slots := fun n => ((t.slots n).step (.tick now)).getD (t.slots n) }
  | .arrive i request =>
    match t.requests i with
    | some _ => none
    | none =>
      match intercept requestFingerprint request with
      | .guarded n hash => ((t.slots n).step (.arrive i hash)).map fun p =>
          ⟨Function.update t.slots n p, Function.update t.requests i (some request)⟩
      | _ => some { t with requests := Function.update t.requests i (some request) }
  | .on n a =>
    if a.isLocal then ((t.slots n).step a).map fun p => { t with slots := Function.update t.slots n p } else none
  | .event tenantId eventId a =>
    let n := eventSlot tenantId eventId
    if a.isEvent then ((t.slots n).store.step a).map fun store =>
      { t with slots := Function.update t.slots n { t.slots n with store := store } }
    else none

/-- One caller, one request line, one key, and bodies with one fingerprint. -/
structure SameRequest (r r' : HttpRequest γ) : Prop where
  tenant : r.principal.map RequestPrincipal.tenantId = r'.principal.map RequestPrincipal.tenantId
  caller : r.principal.map principalRef = r'.principal.map principalRef
  method : r.method = r'.method
  url : r.originalUrl = r'.originalUrl
  key : headerValue r.idempotencyKey = headerValue r'.idempotencyKey
  fingerprint : requestFingerprint r.body = requestFingerprint r'.body

/-- What a request is replayed, an earlier request stored that was the same. -/
def AnswersOwn (t : Traffic γ β) : Prop :=
  ∀ i r n hash code body, t.requests i = some r → intercept requestFingerprint r = .guarded n hash →
    (i, .replayed code body) ∈ (t.slots n).replies →
    ∃ j r' response l₁ l₂, t.requests j = some r' ∧ SameRequest requestFingerprint r r' ∧
      (t.slots n).store.history = l₁ ++ Event.replayed (.claim i) (.claim j) (some response) :: l₂ ∧
      .completed (.complete j) (.claim j) (some response) ∈ l₁ ∧ code = response.code ∧ body = response.body

def settlesBeforeLapse (t : Traffic γ β) : TrafficAction γ β → Bool
  | .on n a => (t.slots n).settlesBeforeLapse a
  | _ => true

/-- The handler returns or throws before the retention of its claim has passed. -/
def returnsInTime (t : Traffic γ β) : TrafficAction γ β → Bool
  | .on n (.succeed i _) => (t.slots n).store.record.any fun r => r.claimant = .claim i && (t.slots n).store.clock < r.expiresAt
  | .on n (.throw i) => (t.slots n).store.record.any fun r => r.claimant = .claim i && (t.slots n).store.clock < r.expiresAt
  | _ => true

variable {requestFingerprint} {t t' : Traffic γ β} {a : TrafficAction γ β} {n : SlotName}

def Guards (requestFingerprint : γ → String) (requests : Nat → Option (HttpRequest γ)) (n : SlotName) (i : Nat) (hash : String) : Prop :=
  ∃ r, requests i = some r ∧ intercept requestFingerprint r = .guarded n hash

theorem guarded_inv {r : HttpRequest γ} {hash : String} (h : intercept requestFingerprint r = .guarded n hash) :
    ∃ principal key, r.principal = some principal ∧ headerValue r.idempotencyKey = .ok (some key) ∧
      n = ⟨principal.tenantId, httpScope principal r.method r.originalUrl.text, key⟩ ∧ hash = requestFingerprint r.body := by
  unfold intercept at h
  split at h
  · cases h
  · split at h
    · cases h
    · cases h
    · rename_i key hkey
      split at h
      · cases h
      · split at h
        · cases h
        · rename_i principal hprincipal
          obtain ⟨context,hcontext,htenant⟩ := idempotencyContextFor_isSome principal
          rw [hcontext] at h
          cases h
          exact ⟨principal,key,hprincipal,hkey,by rw [htenant],rfl⟩

/-- Requests at one record, under one hash, are the same. -/
theorem same_of_guarded {r r' : HttpRequest γ} {hash : String} (h : intercept requestFingerprint r = .guarded n hash)
    (h' : intercept requestFingerprint r' = .guarded n hash) : SameRequest requestFingerprint r r' := by
  obtain ⟨p,key,hp,hkey,hn,hhash⟩ := guarded_inv h
  obtain ⟨p',key',hp',hkey',hn',hhash'⟩ := guarded_inv h'
  obtain ⟨htenant,hscope,rfl⟩ := SlotName.mk.inj (hn.symm.trans hn')
  obtain ⟨hcaller,hmethod,hurl⟩ := httpScope_inj hscope
  refine ⟨?_,?_,hmethod,hurl,hkey.trans hkey'.symm,hhash.symm.trans hhash'⟩
  · rw [hp, hp', Option.map_some, Option.map_some, htenant]
  · rw [hp, hp', Option.map_some, Option.map_some, hcaller]

def IsHttp (n : SlotName) : Prop := ∃ principal method path, n.scope = httpScope principal method path

theorem isHttp_of_guarded {r : HttpRequest γ} {hash : String} (h : intercept requestFingerprint r = .guarded n hash) : IsHttp n := by
  obtain ⟨p,key,_,_,rfl,_⟩ := guarded_inv h
  exact ⟨p,r.method,r.originalUrl.text,rfl⟩

theorem eventSlot_not_http (tenantId : Id) (eventId : String) : ¬ IsHttp (eventSlot tenantId eventId) := by
  rintro ⟨p,method,path,h⟩
  exact httpScope_ne_inboundEventScope (by decide) h.symm

structure Kept (L : Nat → String → Prop) (p : Pipeline β) : Prop where
  guarded : Pipeline.Guarded p
  labelled : p.Labelled L
  replays : p.ShowsReplays

private theorem Kept.mono {L L' : Nat → String → Prop} {p : Pipeline β} (h : Kept L p) (hL : ∀ i hash, L i hash → L' i hash) :
    Kept L' p :=
  ⟨h.guarded,Store.Labelled.mono h.labelled fun _ hash ⟨i,hc,hi⟩ => ⟨i,hc,hL i hash hi⟩,h.replays⟩

private theorem Kept.step {L : Nat → String → Prop} {p p' : Pipeline β} {a : PipelineAction β} (h : Kept L p)
    (hok : p.settlesBeforeLapse a = true) (harrive : ∀ i hash, a = .arrive i hash → L i hash) (hs : p.step a = some p') :
    Kept L p' :=
  ⟨Pipeline.guarded_step h.guarded hok hs,Pipeline.labelled_step h.labelled h.guarded.tracked harrive hs,
    Pipeline.showsReplays_step h.replays h.guarded hs⟩

def AllKept (requestFingerprint : γ → String) (t : Traffic γ β) : Prop :=
  ∀ n, IsHttp n → Kept (Guards requestFingerprint t.requests n) (t.slots n)

theorem allKept_initial : AllKept requestFingerprint (initial : Traffic γ β) := fun _ _ =>
  ⟨Pipeline.guarded_of_run (fun _ _ h => h) Run.nil,Store.Labelled.initial,fun _ _ _ h => by cases h⟩

private theorem guards_update {requests : Nat → Option (HttpRequest γ)} {i : Nat} {r : HttpRequest γ} (hi : requests i = none)
    (j : Nat) (hash : String) (h : Guards requestFingerprint requests n j hash) :
    Guards requestFingerprint (Function.update requests i (some r)) n j hash := by
  obtain ⟨r',hr',hg⟩ := h
  have hji : j ≠ i := by
    rintro rfl
    cases hi.symm.trans hr'
  exact ⟨r',by simpa [hji] using hr',hg⟩

private theorem allKept_update (h : AllKept requestFingerprint t) {p : Pipeline β}
    (hp : IsHttp n → Kept (Guards requestFingerprint t.requests n) p) :
    AllKept requestFingerprint { t with slots := Function.update t.slots n p } := by
  intro m hm
  by_cases hmn : m = n
  · subst hmn
    simpa using hp hm
  · simpa [hmn] using h m hm

theorem allKept_step (h : AllKept requestFingerprint t) (hok : t.settlesBeforeLapse a = true)
    (hs : t.step requestFingerprint a = some t') : AllKept requestFingerprint t' := by
  cases a with
  | tick now =>
    cases hs
    intro n hn
    show Kept _ (((t.slots n).step (.tick now)).getD (t.slots n))
    cases hp : (t.slots n).step (.tick now) with
    | none => exact h n hn
    | some p => exact (h n hn).step rfl (fun _ _ he => by cases he) hp
  | arrive i request =>
    simp only [step] at hs
    split at hs
    · cases hs
    · rename_i hfree
      have hreg : AllKept requestFingerprint { t with requests := Function.update t.requests i (some request) } :=
        fun m hm => (h m hm).mono (guards_update hfree)
      split at hs
      · rename_i n hash hguard
        obtain ⟨p,hp,rfl⟩ := Option.map_eq_some_iff.mp hs
        refine allKept_update (t := { t with requests := Function.update t.requests i (some request) }) hreg fun hn => ?_
        refine (hreg n hn).step rfl (fun j hash' he => ?_) hp
        cases he
        exact ⟨request,by simp,hguard⟩
      · cases hs
        exact hreg
  | on n a =>
    simp only [step] at hs
    split at hs
    · rename_i hlocal
      obtain ⟨p,hp,rfl⟩ := Option.map_eq_some_iff.mp hs
      refine allKept_update h fun hn => (h n hn).step hok (fun _ _ he => ?_) hp
      rw [he] at hlocal
      cases hlocal
    · cases hs
  | event tenantId eventId a =>
    simp only [step] at hs
    split at hs
    · obtain ⟨store,_,rfl⟩ := Option.map_eq_some_iff.mp hs
      exact allKept_update h fun hn => absurd hn (eventSlot_not_http tenantId eventId)
    · cases hs

theorem answersOwn_of_allKept (h : AllKept requestFingerprint t) : t.AnswersOwn requestFingerprint := by
  intro i r n hash code body hr hguard hm
  obtain ⟨hg,hl,hshow⟩ := h n (isHttp_of_guarded hguard)
  obtain ⟨claim,stored,hh,hreply⟩ := hshow i code body hm
  -- both ends of the replay carry one hash
  obtain ⟨hash',⟨i',hi',ri,hri,hgi⟩,j,rfl,r',hr',hgj⟩ := hl.history _ hh
  cases hi'
  cases hr.symm.trans hri
  obtain ⟨l₁,l₂,hsplit⟩ := List.append_of_mem hh
  obtain ⟨_,since,b,⟨l,_,hl₁,_⟩,hdone⟩ := hg.tracked.replay hsplit
  have hstored : .completed b (.claim j) stored ∈ l₁ := by
    rw [hl₁]
    simp [hdone]
  have hstored' : .completed b (.claim j) stored ∈ (t.slots n).store.history := by
    rw [hsplit]
    exact List.mem_append_left _ hstored
  -- and the settle was of its own claim
  obtain ⟨k,response,rfl,rfl⟩ := hl.history _ hstored'
  cases hg.settles.1 k _ _ hstored'
  cases hreply
  exact ⟨_,r',response,l₁,l₂,hr',same_of_guarded hgi hgj,hsplit,hstored,rfl,rfl⟩

/-- A replayed answer goes back to the request it was given to, in every run in which no record is
taken for its deadline from a request that has still to settle; and no two callers, methods or URLs
share a scope, nor does a request with an event. -/
theorem answersOwn_of_run {acts : List (TrafficAction γ β)}
    (hr : Run (step requestFingerprint) (fun t a => t.settlesBeforeLapse a = true) initial acts t) :
    t.AnswersOwn requestFingerprint ∧
    (∀ (p q : RequestPrincipal) (method method' : String) (url url' : RequestTarget), p.tenantId = q.tenantId →
      httpScope p method url.text = httpScope q method' url'.text →
      p.kind = q.kind ∧ p.subject = q.subject ∧ method = method' ∧ url = url') ∧
    ∀ (p : RequestPrincipal) (method : String) (url : RequestTarget),
      httpScope p method url.text ≠ inboundEventScope "slack" := by
  refine ⟨answersOwn_of_allKept ?_,fun p q method method' url url' _ h => ?_,fun p method url => ?_⟩
  · exact hr.invariant allKept_initial fun _ _ _ h ha hs => allKept_step h ha hs
  · obtain ⟨hcaller,hmethod,hurl⟩ := httpScope_inj h
    obtain ⟨hkind,hsubject⟩ := principalRef_inj.mp hcaller
    exact ⟨hkind,hsubject,hmethod,hurl⟩
  · exact httpScope_ne_inboundEventScope (by decide)

def tenantA : Id := ⟨"00000000-0000-4000-8000-00000000000a",by decide⟩

def sessionB : Id := ⟨"00000000-0000-4000-8000-00000000000b",by decide⟩

def contactC : Id := ⟨"00000000-0000-4000-8000-00000000000c",by decide⟩

def opens (contactId : Option Id) (body : String) : HttpRequest String where
  method := "POST"
  idempotencyKey := .one "k"
  principal := some (.widget tenantA sessionB contactId)
  originalUrl := ⟨"/widget/tickets?draft=1",by decide⟩
  body := body

def visitorSlot : SlotName :=
  ⟨tenantA, "w:00000000-0000-4000-8000-00000000000b|POST /widget/tickets?draft=1", "k"⟩

/-- The first request makes the Contact, and its retry comes with it; an event of the same name is
claimed beside them. -/
def visitorRetries : List (TrafficAction String Nat) :=
  [.arrive 0 (opens none "hello"), .event tenantA "k" (.begin (.claim 0) (.claim none)),
   .on visitorSlot (.advance (.claim 0)), .event tenantA "k" (.advance (.claim 0)), .on visitorSlot (.advance (.claim 0)),
   .on visitorSlot (.advance (.claim 0)), .on visitorSlot (.succeed 0 ⟨201, some 5⟩),
   .on visitorSlot (.advance (.complete 0)), .on visitorSlot (.advance (.complete 0)), .tick 1000,
   .arrive 1 (opens (some contactC) "hello"), .on visitorSlot (.advance (.claim 1)), .on visitorSlot (.advance (.claim 1)),
   .on visitorSlot (.advance (.claim 1)), .on visitorSlot (.advance (.claim 1)), .on visitorSlot (.advance (.claim 1)),
   .on visitorSlot (.advance (.claim 1))]

theorem answersOwn_of_visitorRetries :
    ∃ t, Run (step id) (fun t a => t.settlesBeforeLapse a = true) initial visitorRetries t ∧ t.AnswersOwn id ∧
      (1, .replayed 201 (some 5)) ∈ (t.slots visitorSlot).replies := by
  have hrun : (exec (step id) (fun t a => t.settlesBeforeLapse a = true) initial visitorRetries).any
      (fun t => (1, .replayed 201 (some 5)) ∈ (t.slots visitorSlot).replies) = true := by decide +kernel
  obtain ⟨t,ht,hm⟩ := exec_any hrun
  exact ⟨t,ht,(answersOwn_of_run ht).1,by simpa using hm⟩

/-- A handler returns just before its claim lapses, and its `complete()` is slow: the key is taken by
a request with another body, and that record is the one that is completed. -/
def slowComplete : List (TrafficAction String Nat) :=
  [.arrive 0 (opens none "a"), .on visitorSlot (.advance (.claim 0)), .on visitorSlot (.advance (.claim 0)),
   .on visitorSlot (.advance (.claim 0)), .tick 86399999, .on visitorSlot (.succeed 0 ⟨201, some 5⟩), .tick 86400000,
   .arrive 1 (opens none "b"), .on visitorSlot (.advance (.claim 1)), .on visitorSlot (.advance (.claim 1)),
   .on visitorSlot (.advance (.claim 1)), .on visitorSlot (.advance (.claim 1)), .on visitorSlot (.advance (.claim 1)),
   .on visitorSlot (.advance (.complete 0)), .on visitorSlot (.advance (.complete 0)),
   .arrive 2 (opens none "b"), .on visitorSlot (.advance (.claim 2)), .on visitorSlot (.advance (.claim 2)),
   .on visitorSlot (.advance (.claim 2)), .on visitorSlot (.advance (.claim 2)), .on visitorSlot (.advance (.claim 2)),
   .on visitorSlot (.advance (.claim 2))]

def settledItself (history : List (Event CallId Nat)) : Bool :=
  history.any fun e => match e with
    | .completed (.complete j) (.claim k) _ => j = k
    | _ => false

/-- The third request is answered with what the first one did. -/
theorem slowComplete_answers_another :
    ∃ t, Run (step id) (fun t a => t.returnsInTime a = true) initial slowComplete t ∧ ¬ t.AnswersOwn id := by
  have hrun : (exec (step id) (fun t a => t.returnsInTime a = true) initial slowComplete).any
      (fun t => ((t.requests 2).map (intercept id) = some (.guarded visitorSlot "b") ∧
        (2, .replayed 201 (some 5)) ∈ (t.slots visitorSlot).replies) ∧
        settledItself (t.slots visitorSlot).store.history = false) = true := by decide +kernel
  obtain ⟨t,ht,hp⟩ := exec_any hrun
  obtain ⟨⟨hguard,hm⟩,hnone⟩ := of_decide_eq_true hp
  refine ⟨t,ht,fun h => ?_⟩
  obtain ⟨r,hr,hguard⟩ := Option.map_eq_some_iff.mp hguard
  obtain ⟨j,r',response,l₁,l₂,_,_,hsplit,hdone,_⟩ := h 2 r visitorSlot "b" 201 (some 5) hr hguard hm
  have hself : settledItself (t.slots visitorSlot).store.history = true := by
    refine List.any_eq_true.mpr ⟨.completed (.complete j) (.claim j) (some response),?_,by simp⟩
    rw [hsplit]
    exact List.mem_append_left _ hdone
  rw [hnone] at hself
  cases hself

end Traffic
end Nivara.Idempotency
