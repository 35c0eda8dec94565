import Mathlib.Data.Nat.Basic
import Nivara.Transactions.Run

/-! The clock of the scheduler, from `scheduler/scheduler-ticker.service.ts` and `scheduler/scheduler-activity.ts`,
as a machine of timers, unfinished ticks and requests. A timer is re-armed where it fires and where the tick of
a wake is done, and the second of these is later than the wake. -/
namespace Nivara.Scheduler
open Transactions

inductive LoopName where
  | fastDrain
  | slowSweep
  deriving DecidableEq, Repr

def LoopName.activeMs : LoopName → ℕ
  | .fastDrain => 3000
  | .slowSweep => 60000

def idleAfterMs : ℕ := 10 * 60000

def idleTickMs : ℕ := 30 * 60000

structure Timer where
  id : ℕ
  loop : LoopName
  dueAt : ℕ
  deriving DecidableEq, Repr

/-- Which call of `runOnce` a tick belongs to, and so what follows it. The two that `start` awaits are
told by how far the bootstrap is. -/
inductive Occasion where
  | fired
  | woken
  deriving DecidableEq, Repr

structure Tick where
  loop : LoopName
  occasion : Occasion
  deriving DecidableEq, Repr

/-- How far `onApplicationBootstrap` is: it awaits the first tick of either loop in turn. -/
inductive Boot where
  | waiting
  | startingFast
  | startingSlow
  | over
  deriving DecidableEq, Repr

structure Ticker where
  now : ℕ
  boot : Boot
  lastRequestAt : ℕ
  /-- Whether the ticker has hooked itself to `whenWoken`. -/
  hooked : Bool
  loops : List LoopName
  /-- The field `timer` of a loop, which outlives its place among the loops. -/
  timer : LoopName → Option ℕ
  stopped : Bool
  timers : List Timer
  nextId : ℕ
  unfinished : List Tick
  /-- Of every tick so far, whether it was started after the shutdown. -/
  startedLate : List Bool

inductive TickerEvent where
  | bootstrap (runScheduler : Bool)
  /-- The tick that the bootstrap awaits is done. -/
  | started
  | pass (ms : ℕ)
  /-- A request that is not a health check. -/
  | touch
  | fire (timer : Timer)
  | finish (tick : Tick)
  | shutdown
  deriving DecidableEq, Repr

namespace Ticker

def initial : Ticker := ⟨0, .waiting, 0, false, [], fun _ => none, false, [], 0, [], []⟩

def isIdle (s : Ticker) : Bool := idleAfterMs < s.now - s.lastRequestAt

def arm (s : Ticker) (loop : LoopName) : Ticker :=
  if s.stopped then s
  else
    let intervalMs := if s.isIdle then max loop.activeMs idleTickMs else loop.activeMs
    { s with
      timer := Function.update s.timer loop (some s.nextId)
      timers := ⟨s.nextId, loop, s.now + intervalMs⟩ :: s.timers
      nextId := s.nextId + 1 }

def begin (s : Ticker) : Ticker := { s with startedLate := s.stopped :: s.startedLate }

def runOnce (s : Ticker) (loop : LoopName) (occasion : Occasion) : Ticker :=
  { s.begin with unfinished := ⟨loop, occasion⟩ :: s.unfinished }

def clear (s : Ticker) (loop : LoopName) : Ticker :=
  { s with
    timer := Function.update s.timer loop none
    timers := s.timers.filter fun t => some t.id ≠ s.timer loop }

def wakeOne (s : Ticker) (loop : LoopName) : Ticker := (s.clear loop).runOnce loop .woken

def wake (s : Ticker) : Ticker := s.loops.foldl wakeOne s

def start (s : Ticker) (loop : LoopName) : Ticker :=
  (({ s with loops := s.loops ++ [loop] } : Ticker).arm loop).begin

def wakes (s : Ticker) : Bool := s.isIdle && s.hooked

def step (s : Ticker) : TickerEvent → Option Ticker
  | .bootstrap runScheduler =>
    if s.boot = .waiting then
      if runScheduler then some ({ s with hooked := true, boot := .startingFast }.start .fastDrain)
      else some { s with boot := .over }
    else none
  | .started =>
    match s.boot with
    | .startingFast => some ({ s with boot := .startingSlow }.start .slowSweep)
    | .startingSlow => some { s with boot := .over }
    | _ => none
  | .pass ms => some { s with now := s.now + ms }
  | .touch =>
    if s.wakes then some ({ s with lastRequestAt := s.now } : Ticker).wake
    else some { s with lastRequestAt := s.now }
  | .fire timer =>
    if timer ∈ s.timers ∧ timer.dueAt ≤ s.now then
      some ((({ s with timers := s.timers.erase timer } : Ticker).arm timer.loop).runOnce timer.loop .fired)
    else none
  | .finish tick =>
    if tick ∈ s.unfinished then
      let s := { s with unfinished := s.unfinished.erase tick }
      match tick.occasion with
      | .fired => some s
      | .woken => some (s.arm tick.loop)
    else none
  | .shutdown =>
    let s := s.loops.foldl clear { s with stopped := true }
    some { s with loops := [] }

/-- Each loop has at most one pending timer, every pending timer is the recorded one, and no tick was
started after the shutdown. -/
structure OneClock (s : Ticker) : Prop where
  single : (s.timers.map Timer.loop).Nodup
  recorded : ∀ t ∈ s.timers, s.timer t.loop = some t.id
  prompt : true ∉ s.startedLate

/-- No request wakes a loop whose last wake is not done, and no shutdown comes before both loops are begun. -/
def Calm (s : Ticker) : TickerEvent → Prop
  | .touch => s.wakes = true → ∀ loop ∈ s.loops, ⟨loop, .woken⟩ ∉ s.unfinished
  | .shutdown => s.boot = .startingSlow ∨ s.boot = .over
  | _ => True

instance (s : Ticker) : (e : TickerEvent) → Decidable (Calm s e)
  | .touch => inferInstanceAs (Decidable (s.wakes = true → ∀ loop ∈ s.loops, ⟨loop, .woken⟩ ∉ s.unfinished))
  | .shutdown => inferInstanceAs (Decidable (s.boot = .startingSlow ∨ s.boot = .over))
  | .bootstrap _ => inferInstanceAs (Decidable True)
  | .started => inferInstanceAs (Decidable True)
  | .pass _ => inferInstanceAs (Decidable True)
  | .fire _ => inferInstanceAs (Decidable True)
  | .finish _ => inferInstanceAs (Decidable True)

end Ticker
end Nivara.Scheduler
