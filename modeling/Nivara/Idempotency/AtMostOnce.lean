import Mathlib.Data.List.Nodup
import Nivara.Idempotency.SettleOwnership

/-! One effect for one retention window of the key. What breaks it is the settle: a failed
`complete()` takes the path of a failed handler and gives the key back. -/
namespace Nivara.Idempotency.Pipeline
open Transactions

variable {β : Type}

/-- In no retention window does the guarded handler commit its effect twice. -/
def AtMostOnce (p : Pipeline β) : Prop := (p.effects.map Prod.snd).Nodup

/-- The step does not give back the key of a request whose handler has returned. -/
def keepsEffect (p : Pipeline β) : PipelineAction β → Bool
  | .advance (.release i) => (p.store.calls (.release i)).all fun call =>
      call.kind != some .release || p.store.record.all fun old =>
        old.status != .inProgress || p.effects.all (·.1 != i)
  | _ => true

/-- No record is taken too early, and no key is given back after its effect. -/
def settlesInOrder (p : Pipeline β) (a : PipelineAction β) : Bool := p.settlesBeforeLapse a && p.keepsEffect a

structure Windowed (p : Pipeline β) : Prop where
  guarded : Guarded p
  returned : ∀ e ∈ p.effects, 3 ≤ p.rank e.1
  /-- An effect of the current window still has the record. -/
  current : ∀ e ∈ p.effects, e.2 ≤ windowsClosed p.store.history ∧
    (e.2 = windowsClosed p.store.history → ∃ r, p.store.record = some r ∧ r.claimant = .claim e.1)
  kept : ∀ i old, p.store.pending = some (.release i, .release old) → ∀ e ∈ p.effects, e.1 ≠ i
  once : p.AtMostOnce

theorem windowsClosed_append {ι : Type} (es es' : List (Event ι β)) :
    windowsClosed (es ++ es') = windowsClosed es + windowsClosed es' := List.countP_append

theorem windowsClosed_reads {ι : Type} {es : List (Event ι β)} (h : ∀ e ∈ es, e.isRead = true) :
    windowsClosed es = 0 := by
  refine List.countP_eq_zero.mpr fun e he => ?_
  have := h e he
  cases e <;> simp_all [Event.isRead, Event.isLapse]

/-- A window closes exactly when a record is taken for its deadline. -/
theorem windowsClosed_events {ι : Type} (c : ι) (w : Write ι β) :
    windowsClosed (w.events c) = if w.evicted.isSome then 1 else 0 := by
  cases w <;> rfl

theorem windowed_initial : Windowed (initial : Pipeline β) where
  guarded := guarded_of_run (fun _ _ h => h) Run.nil
  returned _ h := by cases h
  current _ h := by cases h
  kept _ _ h := by cases h
  once := List.nodup_nil

private theorem first_of_window {p : Pipeline β} (h : Windowed p) {i : Nat} (hi : p.rank i = 2) :
    ∀ e ∈ p.effects, e.2 ≠ windowsClosed p.store.history := by
  intro e he hcur
  obtain ⟨r,hr,hown⟩ := (h.current e he).2 hcur
  obtain ⟨r',hr',hown'⟩ := h.guarded.own i (by omega) (by omega)
  cases hr.symm.trans hr'
  cases hown.symm.trans hown'
  have := h.returned e he
  omega

/-- A request that holds the lock of a release has thrown or failed to complete. -/
private theorem rank_of_release {p : Pipeline β} (h : Guarded p) {i : Nat} {w : Write CallId β}
    (hw : p.store.pending = some (.release i, w)) : p.rank i = 4 := by
  obtain ⟨_,o,ho⟩ := h.tracked.ready _ w hw
  rcases rank_of_call h.fits ho (i := i) rfl with ⟨hc,_⟩ | ⟨hc,_⟩ | ⟨_,hr⟩
  · cases hc
  · cases hc
  · exact hr

private theorem current_commit {p p' : Pipeline β} (h : Windowed p) {c : CallId} {w : Write CallId β}
    (hheld : p.store.pending = some (c, w)) (hrecord : p'.store.record = w.row)
    (hhistory : p'.store.history = p.store.history ++ w.events c) {e : Nat × Nat} (he : e ∈ p.effects) :
    e.2 ≤ windowsClosed p'.store.history ∧
      (e.2 = windowsClosed p'.store.history → ∃ r, p'.store.record = some r ∧ r.claimant = .claim e.1) := by
  have hready := (h.guarded.tracked.ready c w hheld).1
  obtain ⟨hle,hcur⟩ := h.current e he
  rw [hhistory, windowsClosed_append, windowsClosed_events, hrecord]
  refine ⟨Nat.le_trans hle (Nat.le_add_right _ _),fun heq => ?_⟩
  cases w with
  | insert row =>
    obtain ⟨r,hr,_⟩ := hcur heq
    cases hready.1.symm.trans hr
  | reclaim old row =>
    simp only [Write.evicted, Option.isSome_some, if_true] at heq
    omega
  | complete old response =>
    obtain ⟨r,hr,hown⟩ := hcur heq
    cases hready.1.symm.trans hr
    exact ⟨_,rfl,hown⟩
  | release old =>
    obtain ⟨r,hr,hown⟩ := hcur heq
    exfalso
    cases c with
    | release i =>
      obtain ⟨r',hr',hown'⟩ := holder_owns h.guarded hheld (.inr rfl)
      cases hr.symm.trans hr'
      cases hown.symm.trans hown'
      exact h.kept _ old hheld e he rfl
    | _ => cases h.guarded.holder _ _ hheld
  | sweep old now =>
    simp only [Write.evicted, Option.isSome_some, if_true] at heq
    omega

theorem windowed_of_motion {p p' : Pipeline β} {a : PipelineAction β} (h : Windowed p)
    (hkeep : p.keepsEffect a = true) (hg : Guarded p') (hm : Motion p p' a) : Windowed p' := by
  cases hm with
  | quiet hrecord hpending hhistory hrank heffects =>
    obtain ⟨es,hes,hread⟩ := hhistory
    have hclosed : windowsClosed p'.store.history = windowsClosed p.store.history := by
      rw [hes, windowsClosed_append, windowsClosed_reads hread, Nat.add_zero]
    have hold : ∀ e ∈ p.effects, 3 ≤ p'.rank e.1 ∧ e.2 ≤ windowsClosed p'.store.history ∧
        (e.2 = windowsClosed p'.store.history → ∃ r, p'.store.record = some r ∧ r.claimant = .claim e.1) := by
      intro e he
      rw [hclosed, hrecord]
      exact ⟨Nat.le_trans (h.returned e he) (hrank e.1).1,h.current e he⟩
    rcases heffects with heq | ⟨i,hi,hi',heq⟩
    · refine ⟨hg,fun e he => (hold e (heq ▸ he)).1,fun e he => (hold e (heq ▸ he)).2,fun i old hw e he => ?_,?_⟩
      · exact h.kept i old (hpending _ _ hw) e (heq ▸ he)
      · rw [AtMostOnce, heq]
        exact h.once
    · have hnew := h.guarded.own i (by omega) (by omega)
      refine ⟨hg,fun e he => ?_,fun e he => ?_,fun j old hw e he => ?_,?_⟩
      · rcases List.mem_append.mp (heq ▸ he) with he | he
        · exact (hold e he).1
        · cases List.mem_singleton.mp he
          exact Nat.le_of_eq hi'.symm
      · rcases List.mem_append.mp (heq ▸ he) with he | he
        · exact (hold e he).2
        · cases List.mem_singleton.mp he
          rw [hclosed, hrecord]
          exact ⟨Nat.le_refl _,fun _ => hnew⟩
      · rcases List.mem_append.mp (heq ▸ he) with he | he
        · exact h.kept j old (hpending _ _ hw) e he
        · cases List.mem_singleton.mp he
          intro hij
          have hfour := rank_of_release h.guarded (hpending _ _ hw)
          have htwo : p.rank j = 2 := (show i = j from hij) ▸ hi
          omega
      · rw [AtMostOnce, heq, List.map_append]
        refine List.nodup_append.mpr ⟨h.once,List.nodup_singleton _,fun w hw w' hw' => ?_⟩
        obtain ⟨e,he,rfl⟩ := List.mem_map.mp hw
        cases List.mem_singleton.mp hw'
        exact first_of_window h hi e he
  | @locks c call w hcall _ hpending hready hkind _ hrecord hhistory hrequests heffects =>
    have hrank : ∀ j, p'.rank j = p.rank j := fun j => by rw [rank, rank, hrequests]
    refine ⟨hg,fun e he => ?_,fun e he => ?_,fun i old hw e he => ?_,by rw [AtMostOnce, heffects]; exact h.once⟩
    · rw [hrank]
      exact h.returned e (heffects ▸ he)
    · rw [hrecord, hhistory]
      exact h.current e (heffects ▸ he)
    · cases hpending.symm.trans hw
      have hbefore : p.effects.all (·.1 != i) = true := by
        simpa [keepsEffect, hcall, hkind, hready.1, hready.2, Write.kind] using hkeep
      simpa using List.all_eq_true.mp hbefore e (heffects ▸ he)
  | commits hheld hpending hrecord hhistory hrank heffects =>
    refine ⟨hg,fun e he => ?_,fun e he => ?_,fun i old hw => ?_,by rw [AtMostOnce, heffects]; exact h.once⟩
    · exact Nat.le_trans (h.returned e (heffects ▸ he)) (hrank e.1).1
    · exact current_commit h hheld hrecord hhistory (heffects ▸ he)
    · cases hpending.symm.trans hw

theorem windowed_step {p p' : Pipeline β} {a : PipelineAction β} (h : Windowed p)
    (hok : p.settlesInOrder a = true) (hs : p.step a = some p') : Windowed p' := by
  obtain ⟨hlapse,hkeep⟩ := Bool.and_eq_true_iff.mp hok
  obtain ⟨_,_,hm⟩ := motion_of_step h.guarded.tracked h.guarded.fits hs
  exact windowed_of_motion h hkeep (guarded_step h.guarded hlapse hs) hm

/-- The handler commits its effect at most once in each retention window of the key, as long
as no record is taken from a request that has still to settle and no key is given back by one
whose handler has returned. -/
theorem atMostOnce_of_settlesInOrder {acts : List (PipelineAction β)} {p : Pipeline β}
    (hr : Run step (fun p a => p.settlesInOrder a = true) initial acts p) : p.AtMostOnce :=
  (hr.invariant windowed_initial fun _ _ _ h ha hs => windowed_step h ha hs).once

/-- A request completes, its retry is answered from the record, and a day later the key takes
effect again. -/
def onceADay : List (PipelineAction Nat) :=
  [.arrive 0 "a", .advance (.claim 0), .advance (.claim 0), .advance (.claim 0),
   .succeed 0 ⟨201, some 5⟩, .advance (.complete 0), .advance (.complete 0),
   .arrive 1 "a", .advance (.claim 1), .advance (.claim 1), .advance (.claim 1), .advance (.claim 1), .advance (.claim 1),
   .advance (.claim 1), .tick 86400000,
   .arrive 2 "a", .advance (.claim 2), .advance (.claim 2), .advance (.claim 2), .advance (.claim 2), .advance (.claim 2),
   .succeed 2 ⟨201, some 6⟩]

theorem atMostOnce_of_onceADay :
    ∃ p, Run step (fun p a => p.settlesInOrder a = true) initial onceADay p ∧ p.AtMostOnce ∧
      p.effects = [(0, 0), (2, 1)] := by
  have hrun : ∃ p, exec step (fun p a => p.settlesInOrder a = true) initial onceADay = some p ∧
      p.effects = [(0, 0), (2, 1)] := ⟨_,rfl,by decide⟩
  obtain ⟨p,hp,he⟩ := hrun
  exact ⟨p,Run.of_exec hp,atMostOnce_of_settlesInOrder (Run.of_exec hp),he⟩

/-- The handler returns, `complete()` fails, the key is released, and the client retries. -/
def failedComplete : List (PipelineAction Nat) :=
  [.arrive 0 "a", .advance (.claim 0), .advance (.claim 0), .advance (.claim 0),
   .succeed 0 ⟨201, some 5⟩, .fail (.complete 0), .advance (.release 0), .advance (.release 0),
   .arrive 1 "a", .advance (.claim 1), .advance (.claim 1), .advance (.claim 1), .succeed 1 ⟨201, some 6⟩]

/-- Both handlers commit their effect within the first retention window. -/
theorem failedComplete_repeats_effect :
    ∃ p, Run step Always initial failedComplete p ∧ ¬ p.AtMostOnce := by
  have hrun : ∃ p, exec step Always initial failedComplete = some p ∧ p.effects = [(0, 0), (1, 0)] :=
    ⟨_,rfl,by decide⟩
  obtain ⟨p,hp,he⟩ := hrun
  refine ⟨p,Run.of_exec hp,?_⟩
  rw [AtMostOnce, he]
  decide

end Nivara.Idempotency.Pipeline
