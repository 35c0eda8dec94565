import Nivara.Collections.OrderedMap
import Nivara.Scheduler.Ticker
import Nivara.Text.Calendar
import Nivara.Text.Number

/-! Whether this process should be given traffic: the pulse that the ticks keep (`scheduler/scheduler-heartbeat.ts`), what is made
of it (`scheduler/readiness.ts`), and the two health checks (`health/health.controller.ts`), which are no requests to the
scheduler (`scheduler/scheduler-activity.middleware.ts`). -/
namespace Nivara.Scheduler
open Collections Text

def staleTickMultiplier : ℕ := 3

structure TickReport where
  name : Str
  /-- `none` when the ticker has been started but has not yet completed a tick. -/
  lastTickAt : Option ℤ
  intervalMs : ℕ

structure SchedulerReport where
  enabled : Bool
  ticks : List TickReport

structure RedisReport where
  configured : Bool
  reachable : Bool

structure ReadinessInput where
  now : ℤ
  databaseReachable : Bool
  redis : RedisReport
  scheduler : SchedulerReport

inductive TickStatus where
  | ok
  | stalled
  deriving DecidableEq, Repr

structure TickHealth where
  name : Str
  status : TickStatus
  lastTickAt : Option Str
  ageSeconds : Option ℚ

inductive Availability where
  | ok
  | unavailable
  deriving DecidableEq, Repr

inductive RedisStatus where
  | ok
  | degraded
  | dormant
  deriving DecidableEq, Repr

inductive SchedulerStatus where
  | ok
  | stalled
  | disabled
  deriving DecidableEq, Repr

structure SchedulerHealth where
  status : SchedulerStatus
  ticks : List TickHealth

structure Readiness where
  status : Availability
  database : Availability
  redis : RedisStatus
  scheduler : SchedulerHealth

def healthOf (tick : TickReport) (now : ℤ) : TickHealth :=
  match tick.lastTickAt with
  | none => ⟨tick.name, .stalled, none, none⟩
  | some lastTickAt =>
    let ageMs := now - lastTickAt
    ⟨tick.name, if ageMs > tick.intervalMs * staleTickMultiplier then .stalled else .ok, some (toISOString lastTickAt),
      some (roundSigned (ageMs / 1000))⟩

def evaluateReadiness (input : ReadinessInput) : Readiness :=
  let ticks := if input.scheduler.enabled then input.scheduler.ticks.map (healthOf · input.now) else []
  let schedulerStatus : SchedulerStatus :=
    if !input.scheduler.enabled then .disabled
    else if ticks.length = 0 ∨ ticks.any (·.status = .stalled) then .stalled
    else .ok
  let databaseStatus : Availability := if input.databaseReachable then .ok else .unavailable
  let redisStatus : RedisStatus :=
    if !input.redis.configured then .dormant else if input.redis.reachable then .ok else .degraded
  { status := if databaseStatus = .ok ∧ schedulerStatus ≠ .stalled then .ok else .unavailable
    database := databaseStatus
    redis := redisStatus
    scheduler := ⟨schedulerStatus, ticks⟩ }

structure Beat where
  intervalMs : ℕ
  lastTickAt : Option ℤ
  deriving DecidableEq, Repr

structure SchedulerHeartbeat where
  ticks : OrderedMap Str Beat

namespace SchedulerHeartbeat

def initial : SchedulerHeartbeat := ⟨.empty⟩

def register (h : SchedulerHeartbeat) (name : Str) (intervalMs : ℕ) : SchedulerHeartbeat := ⟨h.ticks.set name ⟨intervalMs, none⟩⟩

def retime (h : SchedulerHeartbeat) (name : Str) (intervalMs : ℕ) : SchedulerHeartbeat :=
  match h.ticks.get name with
  | some tick => ⟨h.ticks.set name { tick with intervalMs }⟩
  | none => h

def beat (h : SchedulerHeartbeat) (name : Str) (at' : ℤ) : SchedulerHeartbeat :=
  match h.ticks.get name with
  | some tick => ⟨h.ticks.set name { tick with lastTickAt := some at' }⟩
  | none => h

def report (h : SchedulerHeartbeat) : List TickReport := h.ticks.entries.map fun (name, tick) => ⟨name, tick.lastTickAt, tick.intervalMs⟩

variable {h : SchedulerHeartbeat} {name other : Str} {intervalMs : ℕ} {at' : ℤ}

theorem get_register : (h.register name intervalMs).ticks.get other = if other = name then some ⟨intervalMs, none⟩ else h.ticks.get other :=
  OrderedMap.get_set

theorem get_retime : (h.retime name intervalMs).ticks.get other =
    if other = name then (h.ticks.get name).map ({ · with intervalMs }) else h.ticks.get other := by
  unfold retime
  cases hget : h.ticks.get name with
  | none =>
    by_cases heq : other = name
    · simp [heq, hget]
    · simp [heq]
  | some tick => simp [OrderedMap.get_set]

theorem get_beat : (h.beat name at').ticks.get other =
    if other = name then (h.ticks.get name).map ({ · with lastTickAt := some at' }) else h.ticks.get other := by
  unfold beat
  cases hget : h.ticks.get name with
  | none =>
    by_cases heq : other = name
    · simp [heq, hget]
    · simp [heq]
  | some tick => simp [OrderedMap.get_set]

theorem mem_report {r : TickReport} : r ∈ h.report ↔ h.ticks.get r.name = some ⟨r.intervalMs, r.lastTickAt⟩ := by
  rw [← OrderedMap.mem_entries, report, List.mem_map]
  constructor
  · rintro ⟨⟨name,tick⟩,hmem,rfl⟩
    exact hmem
  · intro hmem
    exact ⟨_,hmem,rfl⟩

end SchedulerHeartbeat

/-- `HealthController.readiness`: the status code and the body, after both probes. -/
def readiness (runScheduler : Bool) (heartbeat : SchedulerHeartbeat) (now : ℤ) (database : Bool) (redis : RedisReport) : ℕ × Readiness :=
  let readiness := evaluateReadiness ⟨now, database, redis, ⟨runScheduler, heartbeat.report⟩⟩
  (if readiness.status ≠ .ok then 503 else 200, readiness)

def isHealthProbe (url : Str) : Bool :=
  let path := url.takeWhile (· ≠ unit '?')
  path = units "/health" || (units "/health/").isPrefixOf path

def TickReport.Current (tick : TickReport) (now : ℤ) : Prop :=
  ∃ lastTickAt, tick.lastTickAt = some lastTickAt ∧ now - lastTickAt ≤ tick.intervalMs * staleTickMultiplier

theorem healthOf_eq_ok {tick : TickReport} {now : ℤ} : (healthOf tick now).status = .ok ↔ tick.Current now := by
  unfold healthOf TickReport.Current
  cases tick.lastTickAt with
  | none => simp
  | some lastTickAt =>
    simp only [gt_iff_lt, Option.some.injEq, exists_eq_left']
    split <;> simp <;> omega

/-- The scheduler is called stalled when it is on and has no tick, or one that is not current. -/
theorem scheduler_ne_stalled {runScheduler : Bool} {heartbeat : SchedulerHeartbeat} {now : ℤ} {database : Bool} {redis : RedisReport} :
    (readiness runScheduler heartbeat now database redis).2.scheduler.status ≠ .stalled ↔
      (runScheduler = true → heartbeat.report ≠ [] ∧ ∀ tick ∈ heartbeat.report, tick.Current now) := by
  have hany : heartbeat.report.any (fun tick => (healthOf tick now).status = .stalled) = false ↔
      ∀ tick ∈ heartbeat.report, tick.Current now := by
    rw [List.any_eq_false]
    refine forall₂_congr fun tick _ => ?_
    rw [← healthOf_eq_ok]
    cases (healthOf tick now).status <;> simp
  rw [← hany]
  cases runScheduler <;> simp [readiness, evaluateReadiness, List.any_map]

/-- Redis is reported but never judged. -/
theorem readiness_fst {runScheduler : Bool} {heartbeat : SchedulerHeartbeat} {now : ℤ} {database : Bool} {redis : RedisReport} :
    (readiness runScheduler heartbeat now database redis).1 =
      if database = true ∧ (readiness runScheduler heartbeat now database redis).2.scheduler.status ≠ .stalled then 200 else 503 := by
  cases database with
  | true => by_cases h : (readiness runScheduler heartbeat now true redis).2.scheduler.status = .stalled <;>
      simp_all [readiness, evaluateReadiness]
  | false => simp [readiness, evaluateReadiness]

end Nivara.Scheduler
