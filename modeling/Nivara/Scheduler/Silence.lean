import Nivara.Scheduler.Pulse

/-! No silence: whatever becomes of its ticks, a process that is called ready has done each of them lately. -/
namespace Nivara.Scheduler.Pulse
open Transactions Text

variable {p q : Pulse} {e : PulseEvent} {acts : List PulseEvent} {bootedAt : ℤ} {loop : LoopName} {pace : LoopName → ℕ}

/-- The heartbeat is of the loops, at intervals within `pace`, and has beaten where a tick succeeded and nowhere else. -/
structure Honest (pace : LoopName → ℕ) (p : Pulse) : Prop where
  on : p.runScheduler = true
  kept : ∀ name b, p.heartbeat.ticks.get name = some b → ∃ loop : LoopName, name = loop.name ∧ b.intervalMs ≤ pace loop ∧
    ∀ at', b.lastTickAt = some at' → ∃ t, (loop, t) ∈ p.succeeded ∧ at' = p.bootedAt + t

private theorem Honest.arm (h : Honest pace p) (loop : LoopName) (hpace : p.ticker.intervalMs loop ≤ pace loop) : Honest pace (p.arm loop) := by
  unfold Pulse.arm
  split
  · exact h
  · refine ⟨h.on,fun name b hget => ?_⟩
    rw [SchedulerHeartbeat.get_retime] at hget
    split at hget
    · rename_i hname
      obtain ⟨old,hold,rfl⟩ := Option.map_eq_some_iff.mp hget
      obtain ⟨loop',hloop',_,hlast⟩ := h.kept loop.name old hold
      cases LoopName.name_injective hloop'
      exact ⟨loop,hname,hpace,hlast⟩
    · exact h.kept name b hget

private theorem Honest.runOnce (h : Honest pace p) (loop : LoopName) (occasion : Option Occasion) : Honest pace (p.runOnce loop occasion) :=
  ⟨h.on,h.kept⟩

private theorem Honest.ticked (h : Honest pace p) (ticker : Ticker) : Honest pace { p with ticker } := ⟨h.on,h.kept⟩

private theorem Honest.done (h : Honest pace p) (w : Work) (succeeds : Bool) : Honest pace (p.done w succeeds) := by
  cases succeeds with
  | false => exact ⟨h.on,h.kept⟩
  | true =>
    refine ⟨h.on,fun name b hget => ?_⟩
    rw [Pulse.done, if_pos rfl] at hget
    dsimp only at hget
    rw [SchedulerHeartbeat.get_beat] at hget
    split at hget
    · rename_i hname
      obtain ⟨old,hold,rfl⟩ := Option.map_eq_some_iff.mp hget
      obtain ⟨loop',hloop',hle,_⟩ := h.kept w.loop.name old hold
      cases LoopName.name_injective hloop'
      refine ⟨w.loop,hname,hle,?_⟩
      rintro at' ⟨⟩
      exact ⟨p.ticker.now,List.mem_cons_self,rfl⟩
    · obtain ⟨loop',hloop',hle,hlast⟩ := h.kept name b hget
      refine ⟨loop',hloop',hle,fun at' hat => ?_⟩
      obtain ⟨t,ht,rfl⟩ := hlast at' hat
      exact ⟨t,List.mem_cons_of_mem _ ht,rfl⟩

private theorem Honest.start (h : Honest pace p) (loop : LoopName) (hpace : p.ticker.intervalMs loop ≤ pace loop) :
    Honest pace (p.start loop) := by
  have hregister : Honest pace { p with heartbeat := p.heartbeat.register loop.name loop.activeMs } := by
    refine ⟨h.on,fun name b hget => ?_⟩
    dsimp only at hget
    rw [SchedulerHeartbeat.get_register] at hget
    split at hget
    · rename_i hname
      cases hget
      exact ⟨loop,hname,(p.ticker.activeMs_le_intervalMs loop).trans hpace,by rintro at' ⟨⟩⟩
    · exact h.kept name b hget
  exact (hregister.arm loop hpace).runOnce loop none

private theorem Honest.wake (h : Honest pace p) : Honest pace p.wake := by
  rw [wake_eq]
  exact ⟨h.on,h.kept⟩

private theorem honest_step (h : Honest pace p) (hpace : ∀ loop, p.ticker.intervalMs loop ≤ pace loop) (hs : p.step e = some q) :
    Honest pace q := by
  have htold {event : TickerEvent} {r : Pulse} (hs : p.told event r = some q) (hr : Honest pace r) : Honest pace q := by
    obtain ⟨ticker,_,rfl⟩ := Option.map_eq_some_iff.mp hs
    exact hr.ticked ticker
  cases e with
  | bootstrap =>
    refine htold hs ?_
    rw [if_pos h.on]
    exact h.start .fastDrain (hpace .fastDrain)
  | started since succeeds =>
    rw [step] at hs
    cases hboot : p.ticker.boot with
    | startingFast =>
      rw [hboot] at hs
      obtain ⟨_,hs⟩ := Option.ite_none_right_eq_some.mp hs
      have hdone := h.done ⟨.fastDrain, none, since⟩ succeeds
      refine htold hs (hdone.start .slowSweep ?_)
      cases succeeds <;> exact hpace .slowSweep
    | startingSlow =>
      rw [hboot] at hs
      obtain ⟨_,hs⟩ := Option.ite_none_right_eq_some.mp hs
      exact htold hs (h.done _ succeeds)
    | _ =>
      rw [hboot] at hs
      cases hs
  | pass ms => exact htold hs h
  | request url =>
    rw [step] at hs
    split at hs
    · cases hs
      exact h
    · refine htold hs ?_
      split
      · exact h.wake
      · exact h
  | fire t => exact htold hs ((h.arm t.loop (hpace t.loop)).runOnce t.loop (some .fired))
  | finish tick since succeeds =>
    obtain ⟨_,hs⟩ := Option.ite_none_right_eq_some.mp hs
    have hdone := h.done ⟨tick.loop, some tick.occasion, since⟩ succeeds
    refine htold hs ?_
    split
    · refine hdone.arm tick.loop ?_
      cases succeeds <;> exact hpace tick.loop
    · exact hdone
  | shutdown => exact htold hs h

structure Registered (p : Pulse) : Prop where
  fast : p.ticker.boot = .startingFast → (p.heartbeat.ticks.get LoopName.fastDrain.name).isSome = true
  both : p.ticker.boot = .startingSlow ∨ p.ticker.boot = .over → ∀ loop : LoopName, (p.heartbeat.ticks.get loop.name).isSome = true

private theorem isSome_arm {name : Str} : ((p.arm loop).heartbeat.ticks.get name).isSome = (p.heartbeat.ticks.get name).isSome := by
  unfold arm
  split
  · rfl
  · exact SchedulerHeartbeat.isSome_retime

private theorem isSome_done {w : Work} {succeeds : Bool} {name : Str} :
    ((p.done w succeeds).heartbeat.ticks.get name).isSome = (p.heartbeat.ticks.get name).isSome := by
  cases succeeds with
  | false => rfl
  | true => exact SchedulerHeartbeat.isSome_beat

private theorem isSome_start {name : Str} :
    ((p.start loop).heartbeat.ticks.get name).isSome = (decide (name = loop.name) || (p.heartbeat.ticks.get name).isSome) := by
  refine isSome_arm.trans ?_
  dsimp only
  rw [SchedulerHeartbeat.get_register]
  by_cases heq : name = loop.name <;> simp [heq]

/-- A step that leaves the bootstrap where it is and the loops in the heartbeat. -/
private theorem Registered.told (h : Registered p) {event : TickerEvent} {r : Pulse} (hs : p.told event r = some q)
    (hb : ∀ runScheduler, event ≠ .bootstrap runScheduler) (hst : event ≠ .started)
    (hr : ∀ name, (r.heartbeat.ticks.get name).isSome = (p.heartbeat.ticks.get name).isSome) : Registered q := by
  obtain ⟨ticker,hticker,rfl⟩ := Option.map_eq_some_iff.mp hs
  have hboot := Ticker.boot_of_step hticker hb hst
  refine ⟨fun hfast => ?_,fun hboth loop => ?_⟩
  · rw [hr]
    exact h.fast (hboot ▸ hfast)
  · rw [hr]
    exact h.both (hboot ▸ hboth) loop

private theorem registered_step (h : Registered p) (hon : p.runScheduler = true) (hs : p.step e = some q) : Registered q := by
  cases e with
  | bootstrap =>
    obtain ⟨ticker,hticker,rfl⟩ := Option.map_eq_some_iff.mp hs
    obtain ⟨_,hticker⟩ := Option.ite_none_right_eq_some.mp hticker
    rw [if_pos hon] at hticker ⊢
    cases hticker
    have hboot : (({ p.ticker with hooked := true, boot := .startingFast } : Ticker).start .fastDrain).boot = .startingFast :=
      Ticker.boot_arm
    refine ⟨fun _ => isSome_start.trans (by simp),fun hboth => ?_⟩
    dsimp only at hboth
    rw [hboot] at hboth
    rcases hboth with hboth | hboth <;> cases hboth
  | started since succeeds =>
    rw [step] at hs
    cases hboot : p.ticker.boot with
    | startingFast =>
      rw [hboot] at hs
      obtain ⟨_,hs⟩ := Option.ite_none_right_eq_some.mp hs
      obtain ⟨ticker,hticker,rfl⟩ := Option.map_eq_some_iff.mp hs
      rw [Ticker.step, hboot] at hticker
      cases hticker
      have hnext : (({ p.ticker with boot := .startingSlow } : Ticker).start .slowSweep).boot = .startingSlow := Ticker.boot_arm
      refine ⟨fun hfast => ?_,fun _ loop => isSome_start.trans ?_⟩
      · cases hnext.symm.trans hfast
      · cases loop with
        | fastDrain => rw [isSome_done, h.fast hboot, Bool.or_true]
        | slowSweep => simp
    | startingSlow =>
      rw [hboot] at hs
      obtain ⟨_,hs⟩ := Option.ite_none_right_eq_some.mp hs
      obtain ⟨ticker,hticker,rfl⟩ := Option.map_eq_some_iff.mp hs
      rw [Ticker.step, hboot] at hticker
      cases hticker
      refine ⟨?_,fun _ loop => isSome_done.trans (h.both (.inl hboot) loop)⟩
      rintro ⟨⟩
    | _ =>
      rw [hboot] at hs
      cases hs
  | pass ms => exact h.told hs (by simp) (by simp) fun _ => rfl
  | request url =>
    rw [step] at hs
    by_cases hprobe : isHealthProbe url = true
    · rw [if_pos hprobe] at hs
      cases hs
      exact h
    · rw [if_neg hprobe] at hs
      refine h.told hs (by simp) (by simp) fun name => ?_
      split
      · rw [wake_eq]
      · rfl
  | fire t => exact h.told hs (by simp) (by simp) fun _ => isSome_arm
  | finish tick since succeeds =>
    obtain ⟨_,hs⟩ := Option.ite_none_right_eq_some.mp hs
    refine h.told hs (by simp) (by simp) fun name => ?_
    split
    · exact isSome_arm.trans isSome_done
    · exact isSome_done
  | shutdown => exact h.told hs (by simp) (by simp) fun _ => rfl

private theorem honest_run {ok : Pulse → PulseEvent → Prop} (hpace : ∀ p e, ok p e → ∀ loop, p.ticker.intervalMs loop ≤ pace loop)
    (h : Run step ok (initial bootedAt true) acts p) : Honest pace p ∧ Registered p := by
  refine h.invariant (I := fun p => Honest pace p ∧ Registered p) ⟨⟨rfl,?_⟩,⟨?_,?_⟩⟩ ?_
  · rintro name b ⟨⟩
  · rintro ⟨⟩
  · rintro (hboth | hboth) <;> cases hboth
  · rintro p e q ⟨hhonest,hregistered⟩ hok hs
    exact ⟨honest_step hhonest (hpace p e hok) hs,registered_step hregistered hhonest.on hs⟩

private theorem succeeded_of_ready {ok : Pulse → PulseEvent → Prop}
    (hpace : ∀ p e, ok p e → ∀ loop, p.ticker.intervalMs loop ≤ pace loop) (h : Run step ok (initial bootedAt true) acts p)
    (hboot : p.ticker.boot = .over) {database : Bool} {redis : RedisReport}
    (hready : (p.readiness database redis).2.scheduler.status ≠ .stalled) (loop : LoopName) :
    ∃ t, (loop, t) ∈ p.succeeded ∧ p.ticker.now ≤ t + 3 * pace loop := by
  obtain ⟨hhonest,hregistered⟩ := honest_run hpace h
  obtain ⟨b,hget⟩ := Option.isSome_iff_exists.mp (hregistered.both (.inr hboot) loop)
  have hmem : (⟨loop.name, b.lastTickAt, b.intervalMs⟩ : TickReport) ∈ p.heartbeat.report := SchedulerHeartbeat.mem_report.mpr hget
  obtain ⟨at',hat,hage⟩ := (scheduler_ne_stalled.mp hready hhonest.on).2 _ hmem
  obtain ⟨loop',hname,hle,hlast⟩ := hhonest.kept _ b hget
  cases LoopName.name_injective hname
  obtain ⟨t,ht,rfl⟩ := hlast at' hat
  refine ⟨t,ht,?_⟩
  simp only [staleTickMultiplier] at hage
  omega

/-- No silence: whatever becomes of the ticks, a process that is called ready has a database and has done both of its ticks within
three idle intervals, and within three of their own where it has never been idle. -/
theorem recent_of_ready {ok : Pulse → PulseEvent → Prop} (h : Run step ok (initial bootedAt true) acts p) (hboot : p.ticker.boot = .over)
    {database : Bool} {redis : RedisReport} (hready : (p.readiness database redis).1 = 200) :
    database = true ∧ ∀ loop, (∃ t, (loop, t) ∈ p.succeeded ∧ p.ticker.now ≤ t + 3 * idleTickMs) ∧
      ((∀ p e, ok p e → p.ticker.isIdle = false) → ∃ t, (loop, t) ∈ p.succeeded ∧ p.ticker.now ≤ t + 3 * loop.activeMs) := by
  rw [readiness, readiness_fst] at hready
  by_cases hboth : database = true ∧ (p.readiness database redis).2.scheduler.status ≠ .stalled
  · refine ⟨hboth.1,fun loop => ⟨?_,fun hbusy => ?_⟩⟩
    · exact succeeded_of_ready (fun p _ _ loop => p.ticker.intervalMs_le loop) h hboot hboth.2 loop
    · refine succeeded_of_ready (fun p e hok loop => ?_) h hboot hboth.2 loop
      exact (Ticker.intervalMs_of_awake (hbusy p e hok)).le
  · cases (if_neg hboth).symm.trans hready

private def awake (p : Pulse) (_ : PulseEvent) : Prop := p.ticker.isIdle = false

private instance (p : Pulse) (e : PulseEvent) : Decidable (awake p e) := inferInstanceAs (Decidable (p.ticker.isIdle = false))

/-- A drain fails: the one before it is recent enough. -/
theorem recent_of_failedDrain : ∃ p : Pulse, Run step awake (initial 1784462400000 true)
    [.bootstrap, .started 0 true, .started 0 true, .pass 3000, .fire ⟨0, .fastDrain, 3000⟩, .pass 5000,
      .finish ⟨.fastDrain, .fired⟩ 3000 false] p ∧
    ∃ t, (.fastDrain, t) ∈ p.succeeded ∧ p.ticker.now ≤ t + 3 * LoopName.fastDrain.activeMs := by
  have hexec : (exec step awake (initial 1784462400000 true)
      [.bootstrap, .started 0 true, .started 0 true, .pass 3000, .fire ⟨0, .fastDrain, 3000⟩, .pass 5000,
        .finish ⟨.fastDrain, .fired⟩ 3000 false]).any
      (fun p => p.ticker.boot = .over && (p.readiness true ⟨false, false⟩).1 = 200) = true := by decide +kernel
  obtain ⟨p,hrun,hp⟩ := exec_any hexec
  obtain ⟨hboot,hready⟩ := Bool.and_eq_true_iff.mp hp
  exact ⟨p,hrun,((recent_of_ready hrun (of_decide_eq_true hboot) (of_decide_eq_true hready)).2 .fastDrain).2 fun _ _ h => h⟩

end Nivara.Scheduler.Pulse
