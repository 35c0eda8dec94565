import Nivara.Scheduler.Ticker

/-! One clock per loop, along every run in which no request wakes a loop whose last wake is still at work. -/
namespace Nivara.Scheduler.Ticker
open Transactions

variable {s u : Ticker} {loop : LoopName} {e : TickerEvent} {acts : List TickerEvent}

/-- A loop that is being woken has no timer, and a timer belongs to a loop. -/
structure Steady (s : Ticker) : Prop where
  clock : OneClock s
  once : s.loops.Nodup
  listed : ∀ t ∈ s.timers, t.loop ∈ s.loops
  single (loop : LoopName) : s.unfinished.count ⟨loop, .woken⟩ ≤ 1
  waking (loop : LoopName) : ⟨loop, .woken⟩ ∈ s.unfinished → ∀ t ∈ s.timers, t.loop ≠ loop
  awake (loop : LoopName) : ⟨loop, .woken⟩ ∈ s.unfinished → loop ∈ s.loops ∨ s.stopped = true
  shut : s.stopped = true → s.loops = [] ∧ (s.boot = .startingSlow ∨ s.boot = .over)
  boot : (s.boot = .waiting → s.loops = []) ∧ (s.boot = .startingFast → s.loops = [.fastDrain])

theorem steady_initial : Steady initial where
  clock := ⟨List.nodup_nil,by simp [initial],by simp [initial]⟩
  once := List.nodup_nil
  listed := by simp [initial]
  single := by simp [initial]
  waking := by simp [initial]
  awake := by simp [initial]
  shut := by simp [initial]
  boot := by simp [initial]

private theorem Steady.running (h : Steady s) (hloop : loop ∈ s.loops) : s.stopped = false := by
  rw [Bool.eq_false_iff]
  intro hs
  rw [(h.shut hs).1] at hloop
  cases hloop

private theorem Steady.arm (h : Steady s) (hloop : loop ∈ s.loops) (hfree : ∀ t ∈ s.timers, t.loop ≠ loop)
    (hawake : ⟨loop, .woken⟩ ∉ s.unfinished) : Steady (s.arm loop) := by
  rw [Ticker.arm, if_neg (by simp [h.running hloop])]
  refine ⟨⟨?_,?_,h.clock.prompt⟩,h.once,?_,h.single,?_,h.awake,h.shut,h.boot⟩
  · refine List.nodup_cons.mpr ⟨?_,h.clock.single⟩
    intro hmem
    obtain ⟨t,ht,heq⟩ := List.mem_map.mp hmem
    exact hfree t ht heq
  · intro t ht
    rcases List.mem_cons.mp ht with rfl | ht
    · exact Function.update_self ..
    · exact (Function.update_of_ne (hfree t ht) ..).trans (h.clock.recorded t ht)
  · intro t ht
    rcases List.mem_cons.mp ht with rfl | ht
    · exact hloop
    · exact h.listed t ht
  · intro loop' hmem t ht
    rcases List.mem_cons.mp ht with rfl | ht
    · rintro rfl
      exact hawake hmem
    · exact h.waking loop' hmem t ht

private theorem Steady.begin (h : Steady s) (hs : s.stopped = false) : Steady s.begin := by
  refine ⟨⟨h.clock.single,h.clock.recorded,?_⟩,h.once,h.listed,h.single,h.waking,h.awake,h.shut,h.boot⟩
  simp only [Ticker.begin, hs, List.mem_cons, Bool.true_eq_false, false_or]
  exact h.clock.prompt

private theorem stopped_arm : (s.arm loop).stopped = s.stopped := by
  unfold Ticker.arm
  split <;> rfl

private theorem count_fired (ticks : List Tick) (loop loop' : LoopName) :
    List.count ⟨loop, .woken⟩ (⟨loop', .fired⟩ :: ticks) = List.count ⟨loop, .woken⟩ ticks := by
  rw [List.count_cons_of_ne]
  simp

private theorem Steady.fired (h : Steady s) (hs : s.stopped = false) : Steady (s.runOnce loop .fired) := by
  have hb := h.begin hs
  have hmem (loop' : LoopName) (hw : ⟨loop', .woken⟩ ∈ (⟨loop, .fired⟩ :: s.unfinished : List Tick)) :
      ⟨loop', .woken⟩ ∈ s.unfinished := by
    simpa using hw
  refine ⟨⟨hb.clock.single,hb.clock.recorded,hb.clock.prompt⟩,h.once,h.listed,?_,?_,?_,h.shut,h.boot⟩
  · intro loop'
    change List.count _ (⟨loop, .fired⟩ :: s.unfinished) ≤ 1
    rw [count_fired]
    exact h.single loop'
  · exact fun loop' hw => h.waking loop' (hmem loop' hw)
  · exact fun loop' hw => h.awake loop' (hmem loop' hw)

/-- What is left after a loop's timer is cleared is not of that loop. -/
private theorem mem_of_mem_clear {t : Timer} (h : ∀ t ∈ s.timers, s.timer t.loop = some t.id) (ht : t ∈ (s.clear loop).timers) :
    t ∈ s.timers ∧ t.loop ≠ loop := by
  obtain ⟨hmem,hid⟩ := List.mem_filter.mp ht
  refine ⟨hmem,?_⟩
  rintro rfl
  rw [h t hmem] at hid
  simp at hid

private theorem OneClock.clear (h : OneClock s) : OneClock (s.clear loop) := by
  refine ⟨(List.filter_sublist.map Timer.loop).nodup h.single,?_,h.prompt⟩
  intro t ht
  obtain ⟨hmem,hne⟩ := mem_of_mem_clear h.recorded ht
  exact (Function.update_of_ne hne ..).trans (h.recorded t hmem)

private theorem Steady.clear (h : Steady s) (loop : LoopName) : Steady (s.clear loop) where
  clock := h.clock.clear
  once := h.once
  listed t ht := h.listed t (mem_of_mem_clear h.clock.recorded ht).1
  single := h.single
  waking loop' hw t ht := h.waking loop' hw t (mem_of_mem_clear h.clock.recorded ht).1
  awake := h.awake
  shut := h.shut
  boot := h.boot

private theorem Steady.wakeOne (h : Steady s) (hloop : loop ∈ s.loops) (hawake : ⟨loop, .woken⟩ ∉ s.unfinished) :
    Steady (s.wakeOne loop) := by
  have hb := (h.clear loop).begin (h.running hloop)
  have hfree {t : Timer} (ht : t ∈ (s.clear loop).timers) : t.loop ≠ loop := (mem_of_mem_clear h.clock.recorded ht).2
  refine ⟨⟨hb.clock.single,hb.clock.recorded,hb.clock.prompt⟩,h.once,hb.listed,?_,?_,?_,h.shut,h.boot⟩
  · intro loop'
    change List.count _ (⟨loop, .woken⟩ :: s.unfinished) ≤ 1
    by_cases heq : loop' = loop
    · rw [heq, List.count_cons_self, List.count_eq_zero_of_not_mem hawake]
    · rw [List.count_cons_of_ne (by simpa using Ne.symm heq)]
      exact h.single loop'
  · intro loop' hw t ht
    rcases List.mem_cons.mp hw with heq | hw
    · cases heq
      exact hfree ht
    · exact hb.waking loop' hw t ht
  · intro loop' hw
    rcases List.mem_cons.mp hw with heq | hw
    · cases heq
      exact .inl hloop
    · exact h.awake loop' hw

private theorem Steady.wake (h : Steady s) (hawake : ∀ loop ∈ s.loops, ⟨loop, .woken⟩ ∉ s.unfinished) : Steady s.wake := by
  have hfold (loops : List LoopName) (s : Ticker) (h : Steady s) (hnodup : loops.Nodup) (hsub : ∀ loop ∈ loops, loop ∈ s.loops)
      (hawake : ∀ loop ∈ loops, ⟨loop, .woken⟩ ∉ s.unfinished) : Steady (loops.foldl Ticker.wakeOne s) := by
    induction loops generalizing s with
    | nil => exact h
    | cons loop loops ih =>
      obtain ⟨hnot,hnodup⟩ := List.nodup_cons.mp hnodup
      refine ih _ (h.wakeOne (hsub loop List.mem_cons_self) (hawake loop List.mem_cons_self)) hnodup ?_ ?_
      · exact fun loop' hmem => hsub loop' (List.mem_cons_of_mem loop hmem)
      · intro loop' hmem hw
        rcases List.mem_cons.mp hw with heq | hw
        · cases heq
          exact hnot hmem
        · exact hawake loop' (List.mem_cons_of_mem loop hmem) hw
  exact hfold s.loops s h h.once (fun _ hl => hl) hawake

/-- The shutdown clears the timers of every loop, and there are no others. -/
private theorem timers_clear (loops : List LoopName) (s : Ticker) (h : ∀ t ∈ s.timers, s.timer t.loop = some t.id)
    (hsub : ∀ t ∈ s.timers, t.loop ∈ loops) : (loops.foldl Ticker.clear s).timers = [] := by
  induction loops generalizing s with
  | nil =>
    rw [List.foldl_nil, List.eq_nil_iff_forall_not_mem]
    exact fun t ht => List.not_mem_nil (hsub t ht)
  | cons loop loops ih =>
    apply ih
    · intro t ht
      obtain ⟨hmem,hne⟩ := mem_of_mem_clear h ht
      exact (Function.update_of_ne hne ..).trans (h t hmem)
    · intro t ht
      obtain ⟨hmem,hne⟩ := mem_of_mem_clear h ht
      exact (List.mem_cons.mp (hsub t hmem)).resolve_left hne

private theorem clear_frame (loops : List LoopName) (s : Ticker) : (loops.foldl Ticker.clear s).stopped = s.stopped ∧
    (loops.foldl Ticker.clear s).boot = s.boot ∧ (loops.foldl Ticker.clear s).unfinished = s.unfinished ∧
    (loops.foldl Ticker.clear s).startedLate = s.startedLate := by
  induction loops generalizing s with
  | nil => exact ⟨rfl,rfl,rfl,rfl⟩
  | cons loop loops ih => exact ih (s.clear loop)

private theorem Steady.shutdown (h : Steady s) (hboot : s.boot = .startingSlow ∨ s.boot = .over) :
    Steady { s.loops.foldl Ticker.clear { s with stopped := true } with loops := [] } := by
  have htimers := timers_clear s.loops { s with stopped := true } h.clock.recorded h.listed
  obtain ⟨hstopped,hb,hunfinished,hlate⟩ := clear_frame s.loops { s with stopped := true }
  refine ⟨⟨?_,?_,?_⟩,List.nodup_nil,?_,?_,?_,?_,?_,?_⟩
  · simp [htimers]
  · simp [htimers]
  · simpa [hlate] using h.clock.prompt
  · simp [htimers]
  · simpa [hunfinished] using h.single
  · simp [htimers]
  · exact fun _ _ => .inr hstopped
  · exact fun _ => ⟨rfl,by simpa [hb] using hboot⟩
  · simp only [hb]
    rcases hboot with hboot | hboot <;> simp [hboot]

/-- A loop that is begun is new, and the scheduler is not stopped. -/
private theorem Steady.start (h : Steady s) (hs : s.stopped = false) (hnew : loop ∉ s.loops) {b : Boot}
    (hboot : (b = .waiting → s.loops ++ [loop] = []) ∧ (b = .startingFast → s.loops ++ [loop] = [.fastDrain])) :
    Steady (({ s with boot := b } : Ticker).start loop) := by
  have hawake : ⟨loop, .woken⟩ ∉ s.unfinished := by
    intro hw
    rcases h.awake loop hw with hmem | hstopped
    · exact hnew hmem
    · rw [hs] at hstopped
      cases hstopped
  have hlisted : Steady { s with boot := b, loops := s.loops ++ [loop] } := by
    refine ⟨⟨h.clock.single,h.clock.recorded,h.clock.prompt⟩,?_,?_,h.single,h.waking,?_,?_,hboot⟩
    · exact List.nodup_append.mpr ⟨h.once,by simp,by simpa using fun l hl => ne_of_mem_of_not_mem hl hnew⟩
    · exact fun t ht => List.mem_append_left _ (h.listed t ht)
    · exact fun loop' hw => (h.awake loop' hw).imp_left (List.mem_append_left _)
    · intro hstopped
      change s.stopped = true at hstopped
      rw [hs] at hstopped
      cases hstopped
  refine (hlisted.arm (List.mem_append_right _ List.mem_cons_self) ?_ hawake).begin (stopped_arm.trans hs)
  intro t ht heq
  exact hnew (heq ▸ h.listed t ht)

private theorem Steady.erase (h : Steady s) (tick : Tick) : Steady { s with unfinished := s.unfinished.erase tick } := by
  refine ⟨⟨h.clock.single,h.clock.recorded,h.clock.prompt⟩,h.once,h.listed,?_,?_,?_,h.shut,h.boot⟩
  · exact fun loop => le_trans (List.erase_sublist.count_le _) (h.single loop)
  · exact fun loop hw => h.waking loop (List.mem_of_mem_erase hw)
  · exact fun loop hw => h.awake loop (List.mem_of_mem_erase hw)

private theorem Steady.finish (h : Steady s) (loop : LoopName) (hmem : ⟨loop, .woken⟩ ∈ s.unfinished) :
    Steady (({ s with unfinished := s.unfinished.erase ⟨loop, .woken⟩ } : Ticker).arm loop) := by
  have hless := h.erase ⟨loop, .woken⟩
  rcases h.awake loop hmem with hloop | hstopped
  · refine hless.arm hloop (h.waking loop hmem) ?_
    -- it was the only wake of the loop
    intro hw
    have hcount := List.count_pos_iff.mpr hw
    have hone := h.single loop
    rw [List.count_erase_self] at hcount
    omega
  · rw [Ticker.arm, if_pos hstopped]
    exact hless

private theorem Steady.fire (h : Steady s) {t : Timer} (ht : t ∈ s.timers) :
    Steady ((({ s with timers := s.timers.erase t } : Ticker).arm t.loop).runOnce t.loop .fired) := by
  have hloop := h.listed t ht
  have hmem {t' : Timer} (ht' : t' ∈ s.timers.erase t) : t' ∈ s.timers := List.mem_of_mem_erase ht'
  have hless : Steady { s with timers := s.timers.erase t } := by
    refine ⟨⟨?_,?_,h.clock.prompt⟩,h.once,?_,h.single,?_,h.awake,h.shut,h.boot⟩
    · exact (List.erase_sublist.map Timer.loop).nodup h.clock.single
    · exact fun t' ht' => h.clock.recorded t' (hmem ht')
    · exact fun t' ht' => h.listed t' (hmem ht')
    · exact fun loop hw t' ht' => h.waking loop hw t' (hmem ht')
  refine (hless.arm hloop ?_ fun hw => h.waking t.loop hw t ht rfl).fired (stopped_arm.trans (h.running hloop))
  -- the timer that fired was the only one of its loop
  intro t' ht' heq
  have hperm := (List.perm_cons_erase ht).map Timer.loop
  have hnodup := hperm.nodup_iff.mp h.clock.single
  exact (List.nodup_cons.mp hnodup).1 (List.mem_map.mpr ⟨t',ht',heq⟩)

theorem steady_step (h : Steady s) (hcalm : Calm s e) (hstep : step s e = some u) : Steady u := by
  cases e with
  | bootstrap runScheduler =>
    obtain ⟨hboot,hstep⟩ := Option.ite_none_right_eq_some.mp hstep
    have hnone := h.boot.1 hboot
    have hrun : s.stopped = false := by
      rw [Bool.eq_false_iff]
      intro hs
      simpa [hboot] using (h.shut hs).2
    cases runScheduler with
    | true =>
      cases hstep
      have hhooked : Steady { s with hooked := true } :=
        ⟨⟨h.clock.single,h.clock.recorded,h.clock.prompt⟩,h.once,h.listed,h.single,h.waking,h.awake,h.shut,h.boot⟩
      refine hhooked.start hrun (by simp [hnone]) ?_
      rw [hnone]
      constructor
      · rintro ⟨⟩
      · exact fun _ => rfl
    | false =>
      cases hstep
      refine ⟨⟨h.clock.single,h.clock.recorded,h.clock.prompt⟩,h.once,h.listed,h.single,h.waking,h.awake,?_,?_⟩
      · exact fun hs => ⟨hnone,.inr rfl⟩
      · constructor <;> rintro ⟨⟩
  | started =>
    rw [step] at hstep
    split at hstep
    · rename_i hboot
      cases hstep
      have hloops := h.boot.2 hboot
      have hrun : s.stopped = false := by
        rw [Bool.eq_false_iff]
        intro hs
        simpa [hboot] using (h.shut hs).2
      refine h.start hrun (by simp [hloops]) ?_
      constructor <;> rintro ⟨⟩
    · rename_i hboot
      cases hstep
      refine ⟨⟨h.clock.single,h.clock.recorded,h.clock.prompt⟩,h.once,h.listed,h.single,h.waking,h.awake,?_,?_⟩
      · exact fun hs => ⟨(h.shut hs).1,.inr rfl⟩
      · constructor <;> rintro ⟨⟩
    · cases hstep
  | pass ms =>
    cases hstep
    exact ⟨⟨h.clock.single,h.clock.recorded,h.clock.prompt⟩,h.once,h.listed,h.single,h.waking,h.awake,h.shut,h.boot⟩
  | touch =>
    have hlater : Steady { s with lastRequestAt := s.now } :=
      ⟨⟨h.clock.single,h.clock.recorded,h.clock.prompt⟩,h.once,h.listed,h.single,h.waking,h.awake,h.shut,h.boot⟩
    rw [step] at hstep
    split at hstep
    · rename_i hwakes
      cases hstep
      exact hlater.wake (hcalm hwakes)
    · cases hstep
      exact hlater
  | fire t =>
    obtain ⟨⟨ht,_⟩,hstep⟩ := Option.ite_none_right_eq_some.mp hstep
    cases hstep
    exact h.fire ht
  | finish tick =>
    obtain ⟨hmem,hstep⟩ := Option.ite_none_right_eq_some.mp hstep
    obtain ⟨loop,occasion⟩ := tick
    cases occasion with
    | fired =>
      cases hstep
      exact h.erase ⟨loop, .fired⟩
    | woken =>
      cases hstep
      exact h.finish loop hmem
  | shutdown =>
    cases hstep
    exact h.shutdown hcalm

/-- Along every calm run each loop has one clock, and no tick is started after the shutdown. -/
theorem oneClock_run (h : Run step Calm initial acts s) : OneClock s :=
  (h.invariant steady_initial fun _ _ _ hi hcalm hstep => steady_step hi hcalm hstep).clock

/-- An idle spell, a wake, its ticks and a shutdown. -/
theorem oneClock_run_wake : ∃ s : Ticker, Run step Calm initial
    [.bootstrap true, .started, .started, .pass 600001, .touch, .finish ⟨.fastDrain, .woken⟩,
      .finish ⟨.slowSweep, .woken⟩, .shutdown] s ∧ OneClock s := by
  have hexec : (exec step Calm initial [.bootstrap true, .started, .started, .pass 600001, .touch,
      .finish ⟨.fastDrain, .woken⟩, .finish ⟨.slowSweep, .woken⟩, .shutdown]).isSome = true := by decide +kernel
  obtain ⟨s,hs⟩ := Option.isSome_iff_exists.mp hexec
  exact ⟨s,Run.of_exec hs,oneClock_run (Run.of_exec hs)⟩

/-- Two wakes while the ticks of the first are at work: the drain has two timers from then on, and the one
that is not recorded starts a tick after the shutdown. -/
theorem second_wake_forks : ∃ s u : Ticker, Run step Always initial
      [.bootstrap true, .started, .started, .pass 600001, .fire ⟨0, .fastDrain, 3000⟩, .fire ⟨1, .slowSweep, 60000⟩, .touch,
        .pass 600001, .touch, .finish ⟨.fastDrain, .woken⟩, .finish ⟨.fastDrain, .woken⟩] s ∧
    ¬ (s.timers.map Timer.loop).Nodup ∧
    Run step Always s [.shutdown, .pass 3000, .fire ⟨4, .fastDrain, 1203002⟩] u ∧ true ∈ u.startedLate := by
  have hexec : ((exec step Always initial [.bootstrap true, .started, .started, .pass 600001, .fire ⟨0, .fastDrain, 3000⟩,
      .fire ⟨1, .slowSweep, 60000⟩, .touch, .pass 600001, .touch, .finish ⟨.fastDrain, .woken⟩,
      .finish ⟨.fastDrain, .woken⟩]).any fun s => !decide (s.timers.map Timer.loop).Nodup &&
        (exec step Always s [.shutdown, .pass 3000, .fire ⟨4, .fastDrain, 1203002⟩]).any
          fun u => decide (true ∈ u.startedLate)) = true := by decide +kernel
  obtain ⟨s,hs,hfork⟩ := (Option.any_eq_true _ _).mp hexec
  obtain ⟨hnodup,hlate⟩ := Bool.and_eq_true_iff.mp hfork
  obtain ⟨u,hu,htrue⟩ := (Option.any_eq_true _ _).mp hlate
  exact ⟨s,u,Run.of_exec hs,by simpa using hnodup,Run.of_exec hu,by simpa using htrue⟩

end Nivara.Scheduler.Ticker
