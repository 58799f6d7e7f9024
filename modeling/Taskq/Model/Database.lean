import Taskq.Model.Schema

/-! The database state, what one call sees of its surroundings, and the row-level primitives: every
write of a job goes through its range and CHECK constraints, the partial unique index, and the
triggers on `jobs`. -/
namespace Taskq
open Relational

/-- The tables in which the life of the jobs is recorded. -/
structure Core where
  jobs : Table Uuid Job
  attempts : Table Uuid Attempt
  /-- Rows of `job_deps`: a child and the parent it depends on. -/
  deps : Finset (Uuid × Uuid)
  workflows : Table Uuid Workflow
  memberCounts : Table Uuid MemberCounts
  nextUuid : Uuid

/-- The scheduler's tables. -/
structure ScheduleTables where
  schedules : Table Uuid Schedule
  occurrences : Table (Uuid × Time) Occurrence
  decisions : Table Uuid Decision

structure Db extends Core where
  queues : Table String Queue
  queueCounters : Table String QueueCounters
  queueFlow : Table String QueueFlow
  concurrencyLimits : Table String ℤ
  flowLimits : Table String FlowLimit
  flowState : Table String (Option ℚ)
  admissions : Table Uuid Admission
  scheduling : ScheduleTables
  events : List Event
  /-- Notifications sent, as channel and payload. -/
  notices : List (String × String)

/-- Functions of the database server that the package relies on. -/
structure Site where
  /-- `encode(sha256(convert_to(text, 'UTF8')), 'hex')`. -/
  sha256 : String → String
  /-- The cast of a text to an integer, before the range check of the integer type. -/
  parseInt : String → Option ℤ
  /-- The cast of a text to a `uuid`. -/
  parseUuid : String → Option Uuid
  /-- The cast of a text to a boolean. -/
  parseBool : String → Option Bool
  /-- `pg_timezone_names` has the name. -/
  knownTimezone : String → Bool
  /-- The characters beyond ASCII that `[[:space:]]` has under the database's `LC_CTYPE`. -/
  wideSpace : Char → Bool
  /-- The division of numerics, and `make_interval(secs => …)`. -/
  arithmetic : Arithmetic

/-- What a call sees besides the tables. -/
structure Env extends Site where
  /-- Start of the transaction. -/
  now : Time
  /-- Rows that another transaction holds locked, which `SKIP LOCKED` passes over. -/
  locked : Uuid → Bool
  /-- `pg_try_advisory_xact_lock` on a named lock. -/
  tryLock : String → Bool
  /-- `random()` at the retry of a job. -/
  jitter : Uuid → Jitter
  /-- The session has attested its target. -/
  attested : Bool
  xid : ℕ
  /-- The order in which one DELETE statement reaches its rows. -/
  deleteRank : Uuid → ℕ
  /-- `pg_has_role(session_user, oid, 'member')`. -/
  memberOf : ℕ → Bool
  roleExists : ℕ → Bool
  housekeeper : Bool
  /-- The text of a timestamp under the session's time zone. -/
  timeText : Time → String
  /-- The cast of a text to a timestamp under the session's time zone. -/
  parseTime : String → Option Time
  /-- The session may configure queue ownership. -/
  operator : Bool
  /-- `attest_target` accepts the target that the call expects. -/
  expectedTarget : Bool
  /-- `_resolve_admission_owner_role`. -/
  ownerRole : String → Option ℕ
  /-- The rate `settled_per_s` of a queue in the stats snapshot. -/
  settledPerSecond : String → Option ℚ
  /-- The jobs of a queue that the stats snapshot counts as ready. -/
  readyJobs : String → ℚ

/-- `INSERT INTO taskq.job_events`; the message is cut to 500 bytes. -/
def insertEvent (env : Env) (jobId : Uuid) (attemptId : Option Uuid) (eventType : String)
    (actor message : Option String) (data : Option Jsonb) (db : Db) : Db :=
  { db with events := db.events ++
      [⟨jobId, attemptId, eventType, actor, message.map (truncateUtf8 · 500), data, env.now⟩] }

@[simp] theorem insertEvent_toCore (env : Env) (j : Uuid) (a : Option Uuid) (t : String)
    (actor message : Option String) (data : Option Jsonb) (db : Db) :
    (insertEvent env j a t actor message data db).toCore = db.toCore := rfl

/-- A fresh identifier, `uuid7()`. -/
def newUuid (db : Db) : Uuid × Db := (db.nextUuid, { db with nextUuid := db.nextUuid + 1 })

def Db.putFlow (db : Db) (queue : String) (flow : QueueFlow) : Db :=
  { db with queueFlow := db.queueFlow.put queue flow }

@[simp] theorem Db.putFlow_toCore (db : Db) (queue : String) (flow : QueueFlow) :
    (db.putFlow queue flow).toCore = db.toCore := rfl

/-- `pg_notify('taskq_' || queue, '')`. -/
def notifyQueue (queue : String) (db : Db) : Db :=
  { db with notices := db.notices ++ [("taskq_" ++ queue, "")] }

@[simp] theorem notifyQueue_toCore (queue : String) (db : Db) :
    (notifyQueue queue db).toCore = db.toCore := rfl

/-! The breaker emits its events through `emit_event`, which for their types only inserts the row. -/
section Breaker

/-- `now() >= start + make_interval(secs => width)`, also when no window has started. -/
def windowElapsed (env : Env) (start : Option Time) (width : ℤ) : Bool :=
  match start with
  | none => true
  | some s => s + seconds width ≤ env.now

/-- The latency window after a settle, and whether it trips. The latency is that of the attempt
that finished the job. -/
def latencyWindow (env : Env) (new : JobRow) (flow : QueueFlow) (db : Db) :
    Call ((Option Time × ℤ × ℤ) × Bool) :=
  let old := (flow.breakerLatencyWindowStart, flow.breakerLatencySumMs, flow.breakerLatencyCount)
  match flow.breakerLatency with
  | none => .ok (old, false)
  | some config =>
    match new.finishedByAttemptId.bind db.attempts.get? with
    | none => .ok (old, false)
    | some a =>
      let ms := roundHalfAway (env.now - a.claimedAt) 1000
      if windowElapsed env flow.breakerLatencyWindowStart config.windowSeconds then
        .ok ((some env.now, ms, 1), config.minVolume ≤ 1 ∧ config.thresholdMs ≤ ms)
      else do
        let sum := flow.breakerLatencySumMs + ms
        let count ← int4 (flow.breakerLatencyCount + 1)
        .ok ((flow.breakerLatencyWindowStart, sum, count),
          config.minVolume ≤ count ∧ config.thresholdMs ≤ sum.tdiv count)

/-- The failure-rate window after a settle, and whether it trips; only a failure trips it. -/
def rateWindow (env : Env) (failed : Bool) (flow : QueueFlow) :
    Call ((Option Time × ℤ × ℤ) × Bool) :=
  let failures := flow.breakerWindowFailures
  let successes := flow.breakerWindowSuccesses
  match flow.breakerRate with
  | none => .ok ((flow.breakerWindowStart, failures, successes), false)
  | some config => do
    let window ←
      (if windowElapsed env flow.breakerWindowStart config.windowSeconds then
        .ok (some env.now, if failed then 1 else 0, if failed then 0 else 1)
      else if failed then do
        .ok (flow.breakerWindowStart, ← int4 (failures + 1), successes)
      else do
        .ok (flow.breakerWindowStart, failures, ← int4 (successes + 1)))
    if failed then do
      let total ← int4 (window.2.1 + window.2.2)
      .ok (window, config.minVolume ≤ total ∧
        config.failureRatio ≤ env.arithmetic.divide 0 window.2.1 total)
    else .ok (window, false)

/-- A settle while the breaker is half open. -/
def settleProbe (env : Env) (jobId : Uuid) (new : JobRow) (flow : QueueFlow) (db : Db) : Call Db :=
  if new.status = .failed then
    .ok <| insertEvent env jobId none "breaker_reopened" "system"
      "half-open probe failed; breaker re-opened"
      (some (.build [("queue", .str new.queue), ("reason", .str "probe_failed"),
        ("opened_total", .ofInt (flow.breakerOpenedTotal + 1))]))
      (db.putFlow new.queue { flow with
        breakerState := .opened, breakerTrippedAt := some env.now, breakerProbeSuccesses := 0,
        breakerOpenedTotal := flow.breakerOpenedTotal + 1, updatedAt := env.now })
  else do
    let probes ← int4 (flow.breakerProbeSuccesses + 1)
    if flow.breakerHalfOpenSuccesses.getD 1 ≤ probes then
      .ok <| insertEvent env jobId none "breaker_closed" "system"
        "half-open probes succeeded; breaker closed and ramping"
        (some (.build [("queue", .str new.queue),
          ("opened_total", .ofInt flow.breakerOpenedTotal)]))
        (db.putFlow new.queue { flow with
          breakerState := .closed, breakerFailureStreak := 0, breakerProbeSuccesses := 0,
          breakerWindowStart := none, breakerWindowFailures := 0, breakerWindowSuccesses := 0,
          breakerLatencyWindowStart := none, breakerLatencySumMs := 0, breakerLatencyCount := 0,
          rampStartedAt := some env.now, updatedAt := env.now })
    else
      .ok (db.putFlow new.queue { flow with breakerProbeSuccesses := probes, updatedAt := env.now })

/-- A settle while the breaker is closed: feed the windows and the streak, and trip on either. -/
def settleClosed (env : Env) (jobId : Uuid) (new : JobRow) (flow : QueueFlow) (threshold : ℤ)
    (db : Db) : Call Db := do
  let ((latencyStart, latencySum, latencyCount), latencyTrip) ← latencyWindow env new flow db
  let failed : Bool := new.status = .failed
  let streak ← (if failed then int4 (flow.breakerFailureStreak + 1) else .ok 0)
  let ((windowStart, windowFailures, windowSuccesses), rateTrip) ← rateWindow env failed flow
  let streakTrip : Bool := failed ∧ threshold ≤ streak
  let fed : QueueFlow :=
    { flow with breakerFailureStreak := streak, breakerWindowStart := windowStart,
                breakerWindowFailures := windowFailures, breakerWindowSuccesses := windowSuccesses,
                breakerLatencyWindowStart := latencyStart, breakerLatencySumMs := latencySum,
                breakerLatencyCount := latencyCount }
  if streakTrip || rateTrip || latencyTrip then do
    let total ← int4 (windowFailures + windowSuccesses)
    let reason := if streakTrip then "streak" else if rateTrip then "rate" else "latency"
    let message :=
      if streakTrip then "consecutive failures reached the breaker threshold"
      else if rateTrip then "failure rate over the window reached the breaker ratio"
      else "average latency over the window reached the breaker threshold"
    .ok <| insertEvent env jobId none "breaker_opened" "system" message
      (some (.build [("queue", .str new.queue), ("reason", .str reason),
        ("failure_streak", .ofInt streak), ("threshold", .ofInt threshold),
        ("window_failures", .ofInt windowFailures), ("window_total", .ofInt total),
        ("latency_avg_ms", if 0 < latencyCount then .ofInt (latencySum.tdiv latencyCount) else .null),
        ("opened_total", .ofInt (flow.breakerOpenedTotal + 1))]))
      (db.putFlow new.queue { fed with
        breakerState := .opened, breakerTrippedAt := some env.now,
        breakerOpenedTotal := flow.breakerOpenedTotal + 1, updatedAt := env.now })
  else if fed = flow then .ok db
  else .ok (db.putFlow new.queue { fed with updatedAt := env.now })

/-- Trigger `jobs_breaker_trg`, after a job's status became failed or succeeded. -/
def breakerOnSettle (env : Env) (jobId : Uuid) (new : JobRow) (db : Db) : Call Db :=
  match db.queueFlow.get? new.queue with
  | none => .ok db
  | some flow =>
    match flow.breakerFailureThreshold with
    | none => .ok db
    | some threshold =>
      match flow.breakerState with
      | .halfOpen => settleProbe env jobId new flow db
      | .opened => .ok db
      | .closed => settleClosed env jobId new flow threshold db

end Breaker

end Taskq
