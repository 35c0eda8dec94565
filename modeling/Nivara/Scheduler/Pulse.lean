import Nivara.Scheduler.OneClock
import Nivara.Scheduler.Readiness

/-! The ticker with the pulse it keeps, and what the readiness check says of it. A process whose ticks all succeed in time is never
called stalled, through idle spells and wakes; one that is called ready has beaten lately, whatever has become of its ticks. -/
namespace Nivara.Scheduler
open Transactions Text

def LoopName.name : LoopName → Str
  | .fastDrain => units "fast-drain"
  | .slowSweep => units "slow-sweep"

theorem LoopName.name_injective {loop loop' : LoopName} (h : loop.name = loop'.name) : loop = loop' := by
  cases loop <;> cases loop' <;> first | rfl | exact absurd h (by decide)

theorem LoopName.name_ne {loop loop' : LoopName} (h : loop ≠ loop') : loop.name ≠ loop'.name := fun hname => h (name_injective hname)

def Ticker.intervalMs (s : Ticker) (loop : LoopName) : ℕ := if s.isIdle then max loop.activeMs idleTickMs else loop.activeMs

/-- A tick at work, with when it began; one without an occasion is awaited by the bootstrap. -/
structure Work where
  loop : LoopName
  occasion : Option Occasion
  since : ℕ
  deriving DecidableEq, Repr

/-- The scheduler of one process, booted at `bootedAt`. -/
structure Pulse where
  bootedAt : ℤ
  runScheduler : Bool
  ticker : Ticker
  heartbeat : SchedulerHeartbeat
  atWork : List Work
  /-- The ticks that have succeeded, and when. -/
  succeeded : List (LoopName × ℕ)

inductive PulseEvent where
  | bootstrap
  /-- The tick that the bootstrap awaits is done. -/
  | started (since : ℕ) (succeeds : Bool)
  | pass (ms : ℕ)
  | request (url : Str)
  | fire (timer : Timer)
  | finish (tick : Tick) (since : ℕ) (succeeds : Bool)
  | shutdown
  deriving DecidableEq, Repr

namespace Pulse

def initial (bootedAt : ℤ) (runScheduler : Bool) : Pulse := ⟨bootedAt, runScheduler, .initial, .initial, [], []⟩

def arm (p : Pulse) (loop : LoopName) : Pulse :=
  if p.ticker.stopped then p else { p with heartbeat := p.heartbeat.retime loop.name (p.ticker.intervalMs loop) }

def runOnce (p : Pulse) (loop : LoopName) (occasion : Option Occasion) : Pulse :=
  { p with atWork := ⟨loop, occasion, p.ticker.now⟩ :: p.atWork }

/-- The end of a `runOnce`, which beats only when the tick has not thrown. -/
def done (p : Pulse) (work : Work) (succeeds : Bool) : Pulse :=
  let p := { p with atWork := p.atWork.erase work }
  if succeeds then
    { p with
      heartbeat := p.heartbeat.beat work.loop.name (p.bootedAt + p.ticker.now)
      succeeded := (work.loop, p.ticker.now) :: p.succeeded }
  else p

def wake (p : Pulse) : Pulse := p.ticker.loops.foldl (fun p loop => p.runOnce loop (some .woken)) p

def start (p : Pulse) (loop : LoopName) : Pulse :=
  (({ p with heartbeat := p.heartbeat.register loop.name loop.activeMs } : Pulse).arm loop).runOnce loop none

def told (p : Pulse) (event : TickerEvent) (q : Pulse) : Option Pulse := (p.ticker.step event).map fun ticker => { q with ticker }

def step (p : Pulse) : PulseEvent → Option Pulse
  | .bootstrap => p.told (.bootstrap p.runScheduler) (if p.runScheduler then p.start .fastDrain else p)
  | .started since succeeds =>
    match p.ticker.boot with
    | .startingFast =>
      if ⟨.fastDrain, none, since⟩ ∈ p.atWork then p.told .started ((p.done ⟨.fastDrain, none, since⟩ succeeds).start .slowSweep)
      else none
    | .startingSlow =>
      if ⟨.slowSweep, none, since⟩ ∈ p.atWork then p.told .started (p.done ⟨.slowSweep, none, since⟩ succeeds) else none
    | _ => none
  | .pass ms => p.told (.pass ms) p
  | .request url => if isHealthProbe url then some p else p.told .touch (if p.ticker.wakes then p.wake else p)
  | .fire timer => p.told (.fire timer) ((p.arm timer.loop).runOnce timer.loop (some .fired))
  | .finish tick since succeeds =>
    if ⟨tick.loop, some tick.occasion, since⟩ ∈ p.atWork then
      let q := p.done ⟨tick.loop, some tick.occasion, since⟩ succeeds
      p.told (.finish tick) (if tick.occasion = .woken then q.arm tick.loop else q)
    else none
  | .shutdown => p.told .shutdown p

def readiness (p : Pulse) (database : Bool) (redis : RedisReport) : ℕ × Readiness :=
  Scheduler.readiness p.runScheduler p.heartbeat (p.bootedAt + p.ticker.now) database redis

/-- No timer fires more than `late` after it is due, and every tick succeeds within `took`. -/
def Prompt (late : ℕ) (took : LoopName → ℕ) (p : Pulse) : PulseEvent → Prop
  | .pass ms => (∀ t ∈ p.ticker.timers, p.ticker.now + ms ≤ t.dueAt + late) ∧
    ∀ w ∈ p.atWork, p.ticker.now + ms ≤ w.since + took w.loop
  | .started _ succeeds => succeeds = true
  | .finish _ _ succeeds => succeeds = true
  | _ => True

instance (late : ℕ) (took : LoopName → ℕ) (p : Pulse) : (e : PulseEvent) → Decidable (Prompt late took p e)
  | .pass ms => inferInstanceAs (Decidable ((∀ t ∈ p.ticker.timers, p.ticker.now + ms ≤ t.dueAt + late) ∧
    ∀ w ∈ p.atWork, p.ticker.now + ms ≤ w.since + took w.loop))
  | .started _ succeeds => inferInstanceAs (Decidable (succeeds = true))
  | .finish _ _ succeeds => inferInstanceAs (Decidable (succeeds = true))
  | .bootstrap => inferInstanceAs (Decidable True)
  | .request _ => inferInstanceAs (Decidable True)
  | .fire _ => inferInstanceAs (Decidable True)
  | .shutdown => inferInstanceAs (Decidable True)

end Pulse

namespace Ticker
variable {s u : Ticker} {loop : LoopName}

theorem activeMs_le_intervalMs (s : Ticker) (loop : LoopName) : loop.activeMs ≤ s.intervalMs loop := by
  unfold intervalMs
  split
  · exact le_max_left ..
  · exact le_refl _

theorem intervalMs_le (s : Ticker) (loop : LoopName) : s.intervalMs loop ≤ idleTickMs := by
  unfold intervalMs
  split <;> cases loop <;> decide

theorem intervalMs_of_awake (h : s.isIdle = false) : s.intervalMs loop = loop.activeMs := by
  simp [intervalMs, h]

/-- A loop that nobody asks anything of only slows down. -/
theorem intervalMs_mono (hnow : s.now ≤ u.now) (hlast : u.lastRequestAt = s.lastRequestAt) :
    s.intervalMs loop ≤ u.intervalMs loop := by
  by_cases hidle : s.isIdle = true
  · have hlong : u.isIdle = true := by
      simp only [isIdle, decide_eq_true_eq] at hidle ⊢
      omega
    simp [intervalMs, hidle, hlong]
  · rw [intervalMs_of_awake (Bool.eq_false_iff.mpr hidle)]
    exact u.activeMs_le_intervalMs loop

theorem intervalMs_congr (hnow : u.now = s.now) (hlast : u.lastRequestAt = s.lastRequestAt) :
    u.intervalMs loop = s.intervalMs loop := by
  rw [intervalMs, intervalMs, isIdle, isIdle, hnow, hlast]

theorem arm_running (h : s.stopped = false) (loop : LoopName) : s.arm loop =
    { s with
      timer := Function.update s.timer loop (some s.nextId)
      timers := ⟨s.nextId, loop, s.now + s.intervalMs loop⟩ :: s.timers
      nextId := s.nextId + 1 } :=
  if_neg (by simp [h])

/-- What a wake leaves of the ticker. -/
theorem wake_frame (loops : List LoopName) (s : Ticker) :
    (loops.foldl wakeOne s).now = s.now ∧ (loops.foldl wakeOne s).lastRequestAt = s.lastRequestAt ∧
    (loops.foldl wakeOne s).loops = s.loops ∧ (loops.foldl wakeOne s).hooked = s.hooked ∧ (loops.foldl wakeOne s).boot = s.boot ∧
    (loops.foldl wakeOne s).stopped = s.stopped ∧
    (loops.foldl wakeOne s).unfinished = loops.reverse.map (⟨·, .woken⟩) ++ s.unfinished := by
  induction loops generalizing s with
  | nil => simp
  | cons loop loops ih =>
    obtain ⟨hnow,hlast,hloops,hhooked,hboot,hstopped,hunfinished⟩ := ih (s.wakeOne loop)
    refine ⟨hnow,hlast,hloops,hhooked,hboot,hstopped,?_⟩
    rw [List.foldl_cons, hunfinished]
    simp [wakeOne, clear, Ticker.runOnce, begin]

theorem stays_stopped {e : TickerEvent} (h : s.step e = some u) (hs : s.stopped = true) : u.stopped = true := by
  have harm (s : Ticker) (loop : LoopName) (hs : s.stopped = true) : (s.arm loop).stopped = true := by
    rw [arm, if_pos hs]
    exact hs
  cases e with
  | bootstrap runScheduler =>
    obtain ⟨_,h⟩ := Option.ite_none_right_eq_some.mp h
    cases runScheduler with
    | true =>
      cases h
      exact harm _ _ hs
    | false =>
      cases h
      exact hs
  | started =>
    rw [step] at h
    cases hboot : s.boot with
    | startingFast =>
      rw [hboot] at h
      cases h
      exact harm _ _ hs
    | startingSlow =>
      rw [hboot] at h
      cases h
      exact hs
    | _ =>
      rw [hboot] at h
      cases h
  | pass ms =>
    cases h
    exact hs
  | touch =>
    rw [step] at h
    by_cases hw : s.wakes = true
    · rw [if_pos hw] at h
      cases h
      exact (wake_frame s.loops _).2.2.2.2.2.1.trans hs
    · rw [if_neg hw] at h
      cases h
      exact hs
  | fire t =>
    obtain ⟨_,h⟩ := Option.ite_none_right_eq_some.mp h
    cases h
    exact harm _ _ hs
  | finish tick =>
    obtain ⟨_,h⟩ := Option.ite_none_right_eq_some.mp h
    obtain ⟨loop,occasion⟩ := tick
    cases occasion with
    | fired =>
      cases h
      exact hs
    | woken =>
      cases h
      exact harm _ _ hs
  | shutdown =>
    cases h
    have hclear (loops : List LoopName) (s : Ticker) (hs : s.stopped = true) : (loops.foldl clear s).stopped = true := by
      induction loops generalizing s with
      | nil => exact hs
      | cons loop loops ih => exact ih (s.clear loop) hs
    exact hclear s.loops _ rfl

theorem boot_arm : (s.arm loop).boot = s.boot := by
  unfold arm
  split <;> rfl

/-- Only the bootstrap itself goes further. -/
theorem boot_of_step {e : TickerEvent} (h : s.step e = some u) (hb : ∀ runScheduler, e ≠ .bootstrap runScheduler)
    (hst : e ≠ .started) : u.boot = s.boot := by
  cases e with
  | bootstrap runScheduler => exact absurd rfl (hb runScheduler)
  | started => exact absurd rfl hst
  | pass ms =>
    cases h
    rfl
  | touch =>
    rw [step] at h
    by_cases hw : s.wakes = true
    · rw [if_pos hw] at h
      cases h
      exact (wake_frame s.loops _).2.2.2.2.1
    · rw [if_neg hw] at h
      cases h
      rfl
  | fire t =>
    obtain ⟨_,h⟩ := Option.ite_none_right_eq_some.mp h
    cases h
    exact boot_arm
  | finish tick =>
    obtain ⟨_,h⟩ := Option.ite_none_right_eq_some.mp h
    obtain ⟨loop,occasion⟩ := tick
    cases occasion with
    | fired =>
      cases h
      rfl
    | woken =>
      cases h
      exact boot_arm
  | shutdown =>
    cases h
    have hclear (loops : List LoopName) (s : Ticker) : (loops.foldl clear s).boot = s.boot := by
      induction loops generalizing s with
      | nil => rfl
      | cons loop loops ih => exact ih (s.clear loop)
    exact hclear s.loops _

end Ticker

namespace SchedulerHeartbeat
variable {h : SchedulerHeartbeat} {name other : Str} {intervalMs : ℕ} {at' : ℤ} {b : Beat}

theorem isSome_retime : ((h.retime name intervalMs).ticks.get other).isSome = (h.ticks.get other).isSome := by
  rw [get_retime]
  split
  · rename_i heq
    rw [Option.isSome_map, heq]
  · rfl

theorem isSome_beat : ((h.beat name at').ticks.get other).isSome = (h.ticks.get other).isSome := by
  rw [get_beat]
  split
  · rename_i heq
    rw [Option.isSome_map, heq]
  · rfl

theorem get_retime_self (hb : h.ticks.get name = some b) :
    (h.retime name intervalMs).ticks.get name = some { b with intervalMs } := by
  rw [get_retime, if_pos rfl, hb]
  rfl

theorem get_beat_self (hb : h.ticks.get name = some b) :
    (h.beat name at').ticks.get name = some { b with lastTickAt := some at' } := by
  rw [get_beat, if_pos rfl, hb]
  rfl

end SchedulerHeartbeat

namespace Pulse

theorem wake_eq (p : Pulse) :
    p.wake = { p with atWork := p.ticker.loops.reverse.map (fun loop => ⟨loop, some .woken, p.ticker.now⟩) ++ p.atWork } := by
  have hfold (loops : List LoopName) (p : Pulse) : loops.foldl (fun p loop => p.runOnce loop (some .woken)) p =
      { p with atWork := loops.reverse.map (fun loop => ⟨loop, some .woken, p.ticker.now⟩) ++ p.atWork } := by
    induction loops generalizing p with
    | nil => rfl
    | cons loop loops ih =>
      rw [List.foldl_cons, ih]
      simp [runOnce]
  exact hfold p.ticker.loops p

end Pulse
end Nivara.Scheduler
