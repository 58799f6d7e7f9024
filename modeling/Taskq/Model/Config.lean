import Taskq.Model.Reservation

/-! Configuration of queues: profile, pause, limits, breaker, aging and admission ownership. -/
namespace Taskq
open Relational

def Db.putQueue (db : Db) (name : String) (q : Queue) : Db :=
  { db with queues := db.queues.put name q }

@[simp] theorem Db.putQueue_toCore (db : Db) (name : String) (q : Queue) :
    (db.putQueue name q).toCore = db.toCore := rfl

inductive Upsert where
  | created | unchanged | updated
  deriving DecidableEq, Repr

section Profile

/-- The profile of a queue that does not exist yet. -/
def Queue.fresh (env : Env) : Queue where
  profileVersion := 1
  pausedAt := none
  pauseReason := none
  defaultPriority := 100
  defaultLeaseSeconds := 300
  defaultMaxAttempts := 5
  defaultBackoffMode := .exponential
  defaultBackoffBase := 30
  defaultBackoffCap := 3600
  retentionHours := 48
  failedRetentionHours := 336
  maxDepth := none
  notifyEnabled := true
  maxRunning := none
  claimRatePerMinute := none
  claimBurst := none
  rampSeconds := none
  defaultTtlSeconds := none
  backpressureRetrySeconds := 5
  notifyMode := .always
  admissionOwnerOid := none
  updatedAt := env.now

def profileKeys : List String :=
  ["default_priority", "default_lease_seconds", "default_max_attempts", "default_backoff_mode",
   "default_backoff_base", "default_backoff_cap", "retention_hours", "failed_retention_hours",
   "max_depth", "notify_enabled", "max_running", "claim_rate_per_minute", "claim_burst",
   "ramp_seconds", "default_ttl_seconds", "backpressure_retry_seconds", "notify_mode"]

def checkProfileKeys : List String → Call Unit
  | [] => .ok ()
  | key :: keys => do
    ensure (profileKeys.contains key) (tq422 ("unknown queue profile field \"" ++ key ++ "\""))
    checkProfileKeys keys

/-- A column of `jsonb_populate_record`: the old value unless the profile has the key. -/
def populate {α : Type} (profile : Jsonb) (key : String) (old : Option α)
    (cast : Jsonb → String → Call (Option α)) : Call (Option α) :=
  (if profile.hasKey key then cast profile key else .ok old).mapError fun e =>
    tq422 ("invalid queue profile value: " ++ e.message)

/-- A populated column that may not be NULL and must satisfy its check. -/
def required {α : Type} (value : Option α) (p : α → Bool) (message : String) : Call α :=
  match value with
  | some a => if p a then .ok a else .error (tq422 message)
  | none => .error (tq422 message)

def NotifyMode.ofText? (s : String) : Option NotifyMode :=
  if s = "always" then some .always
  else if s = "on_idle_transition" then some .onIdleTransition else none

def NotifyMode.text : NotifyMode → String
  | .always => "always"
  | .onIdleTransition => "on_idle_transition"

/-- The profile of `old` with the fields of `profile` replaced and checked. -/
def applyProfile (env : Env) (profile : Jsonb) (old : Queue) : Call Queue := do
  let int := castInt env
  let small := smallField env
  let text := fun (p : Jsonb) key => .ok (p.fieldText? key)
  let priority ← populate profile "default_priority" (some old.defaultPriority) small
  let lease ← populate profile "default_lease_seconds" (some old.defaultLeaseSeconds) int
  let attempts ← populate profile "default_max_attempts" (some old.defaultMaxAttempts) small
  let mode ← populate profile "default_backoff_mode" (some old.defaultBackoffMode.text) text
  let base ← populate profile "default_backoff_base" (some old.defaultBackoffBase) int
  let cap ← populate profile "default_backoff_cap" (some old.defaultBackoffCap) int
  let retention ← populate profile "retention_hours" (some old.retentionHours) int
  let failedRetention ← populate profile "failed_retention_hours" (some old.failedRetentionHours) int
  let depth ← populate profile "max_depth" old.maxDepth int
  let notify ← populate profile "notify_enabled" (some old.notifyEnabled) (castText env.parseBool)
  let running ← populate profile "max_running" old.maxRunning int
  let rate ← populate profile "claim_rate_per_minute" old.claimRatePerMinute int
  let burst ← populate profile "claim_burst" old.claimBurst int
  let ramp ← populate profile "ramp_seconds" old.rampSeconds int
  let ttl ← populate profile "default_ttl_seconds" old.defaultTtlSeconds int
  let retry ← populate profile "backpressure_retry_seconds" (some old.backpressureRetrySeconds) int
  let notifyMode ← populate profile "notify_mode" (some old.notifyMode.text) text
  let priority ← required priority (fun n => 0 ≤ n ∧ n ≤ 1000) "default_priority must be 0..1000"
  let lease ← required lease (fun n => 15 ≤ n ∧ n ≤ 86400) "default_lease_seconds must be 15..86400"
  let attempts ← required attempts (fun n => 1 ≤ n ∧ n ≤ 100) "default_max_attempts must be 1..100"
  let mode ← required (mode.bind BackoffMode.ofText?) (fun _ => true)
    "default_backoff_mode must be fixed|exponential"
  let base ← required base (fun n => 1 ≤ n ∧ n ≤ 86400) "invalid queue backoff profile"
  let cap ← required cap (fun n => base ≤ n) "invalid queue backoff profile"
  let retention ← required retention (fun n => 1 ≤ n) "queue retention hours must be >= 1"
  let failedRetention ← required failedRetention (fun n => 1 ≤ n) "queue retention hours must be >= 1"
  ensure (depth.all (0 < ·)) (tq422 "max_depth must be NULL or > 0")
  let notify ← required notify (fun _ => true) "notify_enabled must be a boolean"
  ensure (running.all (0 < ·)) (tq422 "max_running must be NULL or > 0")
  ensure (rate.all (0 < ·) ∧ burst.all (0 < ·)) (tq422 "claim rate and burst must be NULL or > 0")
  ensure (ramp.all fun n => 1 ≤ n ∧ n ≤ 86400) (tq422 "ramp_seconds must be NULL or 1..86400")
  ensure (ttl.all fun n => 1 ≤ n ∧ n ≤ 31536000)
    (tq422 "default_ttl_seconds must be NULL or 1..31536000")
  let retry ← required retry (fun n => 1 ≤ n ∧ n ≤ 300) "backpressure_retry_seconds must be 1..300"
  let notifyMode ← required (notifyMode.bind NotifyMode.ofText?) (fun _ => true)
    "notify_mode must be always|on_idle_transition"
  .ok { old with
    defaultPriority := priority, defaultLeaseSeconds := lease, defaultMaxAttempts := attempts
    defaultBackoffMode := mode, defaultBackoffBase := base, defaultBackoffCap := cap
    retentionHours := retention, failedRetentionHours := failedRetention, maxDepth := depth
    notifyEnabled := notify, maxRunning := running, claimRatePerMinute := rate, claimBurst := burst
    rampSeconds := ramp, defaultTtlSeconds := ttl, backpressureRetrySeconds := retry
    notifyMode := notifyMode }

/-- `ensure_queue`. -/
def ensureQueue (env : Env) (name : Option String) (profile : Option Jsonb) (db : Db) :
    Call ((Upsert × Queue) × Db) := do
  let profile := profile.getD (.obj [])
  let bad := tq422 "queue name must match ^[a-z0-9_]{1,57}$"
  match name with
  | none => .error bad
  | some name => do
    ensure (isQueueName name = true) bad
    ensure (profile.kind = .object) (tq422 "profile must be a json object")
    checkProfileKeys profile.keys
    match db.queues.get? name with
    | none => do
      let q ← applyProfile env profile (.fresh env)
      .ok ((.created, q), db.putQueue name q)
    | some old => do
      let q ← applyProfile env profile old
      if q = old then .ok ((.unchanged, old), db)
      else
        let q := { q with profileVersion := old.profileVersion + 1, updatedAt := env.now }
        .ok ((.updated, q), db.putQueue name q)

end Profile

section Pause

inductive PauseOutcome where
  | paused | alreadyPaused | resumed | alreadyResumed
  deriving DecidableEq, Repr

/-- `pause_queue`. -/
def pauseQueue (env : Env) (name : String) (reason : Option String) (db : Db) :
    Call (PauseOutcome × Db) :=
  match db.queues.get? name with
  | none => .error (unknownQueue name)
  | some q =>
    if q.pausedAt.isSome then .ok (.alreadyPaused, db)
    else .ok (.paused, db.putQueue name
      { q with pausedAt := some env.now, pauseReason := reason, updatedAt := env.now })

/-- `resume_queue`; a queue with a ramp starts it. -/
def resumeQueue (env : Env) (name : String) (db : Db) : Call (PauseOutcome × Db) :=
  match db.queues.get? name with
  | none => .error (unknownQueue name)
  | some q =>
    if q.pausedAt.isNone then .ok (.alreadyResumed, db)
    else
      let db := db.putQueue name
        { q with pausedAt := none, pauseReason := none, updatedAt := env.now }
      if q.rampSeconds.isNone then .ok (.resumed, db)
      else .ok (.resumed, db.putFlow name
        { (db.queueFlow.get? name).getD (.fresh env.now) with
          rampStartedAt := some env.now, updatedAt := env.now })

end Pause

section Limits

/-- `set_concurrency_limit`. -/
def setConcurrencyLimit (key : Option String) (maxRunning : Option ℤ) (db : Db) :
    Call (Upsert × Db) := do
  ensure (key.any isLimitKey) (tq422 "concurrency key must match ^[a-z0-9_.:-]{1,120}$")
  ensure (maxRunning.any (0 ≤ ·)) (tq422 ("max_running must be >= 0, got " ++ shown maxRunning))
  let key := key.getD ""
  let limit := maxRunning.getD 0
  let put := { db with concurrencyLimits := db.concurrencyLimits.put key limit }
  match db.concurrencyLimits.get? key with
  | none => .ok (.created, put)
  | some old => if old = limit then .ok (.unchanged, db) else .ok (.updated, put)

/-- `set_flow_limit`. -/
def setFlowLimit (key : Option String) (rate burst : Option ℤ) (db : Db) : Call (Upsert × Db) := do
  ensure (key.any isLimitKey) (tq422 "flow key must match [a-z0-9_.:-]{1,120}")
  ensure (rate.any (0 < ·)) (tq422 "rate_per_minute must be positive")
  ensure (burst.all (0 < ·)) (tq422 "burst must be positive")
  let key := key.getD ""
  let limit : FlowLimit := ⟨rate.getD 0, burst⟩
  let put := { db with flowLimits := db.flowLimits.put key limit }
  match db.flowLimits.get? key with
  | none => .ok (.created, put)
  | some old => if old = limit then .ok (.unchanged, db) else .ok (.updated, put)

end Limits

section BreakerConfig

def noSuchQueue : SqlError := .mk' .tq001 "taskq: no such queue"

/-- Upsert the flow row of a queue; whether it existed. -/
def upsertFlow (env : Env) (queue : String) (f : QueueFlow → QueueFlow) (db : Db) : Upsert × Db :=
  match db.queueFlow.get? queue with
  | none => (.created, db.putFlow queue (f (.fresh env.now)))
  | some flow => (.updated, db.putFlow queue { f flow with updatedAt := env.now })

/-- `set_breaker_config`. -/
def setBreakerConfig (env : Env) (queue : String) (threshold cooldown successes : Option ℤ)
    (db : Db) : Call (Upsert × Db) := do
  ensure ((db.queues.get? queue).isSome) noSuchQueue
  ensure (threshold.all (0 < ·)) (tq422 "failure_threshold must be NULL or > 0")
  ensure (cooldown.any fun n => 1 ≤ n ∧ n ≤ 86400) (tq422 "cooldown_seconds must be 1..86400")
  ensure (successes.any fun n => 1 ≤ n ∧ n ≤ 100) (tq422 "half_open_successes must be 1..100")
  .ok (upsertFlow env queue (fun flow => { flow with
    breakerFailureThreshold := threshold, breakerCooldownSeconds := cooldown
    breakerHalfOpenSuccesses := successes }) db)

/-- `UPDATE taskq.queue_flow … WHERE breaker_failure_threshold IS NOT NULL`. -/
def updateBreaker (env : Env) (queue : String) (f : QueueFlow → QueueFlow) (db : Db) : Call Db :=
  match (db.queueFlow.get? queue).filter (·.breakerFailureThreshold.isSome) with
  | none => .error (.mk' .tq001 "taskq: no configured breaker for queue")
  | some flow => .ok (db.putFlow queue { f flow with updatedAt := env.now })

/-- The checks that the two window settings share. -/
def checkWindow (enabled : Bool) (window volume : Option ℤ) : Call Unit := do
  ensure (¬enabled ∨ window.any fun n => 1 ≤ n ∧ n ≤ 86400) (tq422 "window_seconds must be 1..86400")
  ensure (¬enabled ∨ volume.any (0 < ·)) (tq422 "min_volume must be > 0")

/-- `set_breaker_rate`; a missing ratio clears it. -/
def setBreakerRate (env : Env) (queue : String) (ratio : Option ℚ) (window volume : Option ℤ)
    (db : Db) : Call Db := do
  ensure (ratio.all fun r => 0 < r ∧ r ≤ 1) (tq422 "failure_ratio must be in (0, 1]")
  checkWindow ratio.isSome window volume
  updateBreaker env queue (fun flow => { flow with
    breakerRate := ratio.map fun r => ⟨r, window.getD 0, volume.getD 0⟩
    breakerWindowStart := none, breakerWindowFailures := 0, breakerWindowSuccesses := 0 }) db

/-- `set_breaker_latency`; a missing threshold clears it. -/
def setBreakerLatency (env : Env) (queue : String) (threshold window volume : Option ℤ) (db : Db) :
    Call Db := do
  ensure (threshold.all (0 < ·)) (tq422 "threshold_ms must be > 0")
  checkWindow threshold.isSome window volume
  updateBreaker env queue (fun flow => { flow with
    breakerLatency := threshold.map fun t => ⟨t, window.getD 0, volume.getD 0⟩
    breakerLatencyWindowStart := none, breakerLatencySumMs := 0, breakerLatencyCount := 0 }) db

/-- The windows of a breaker, emptied. -/
def QueueFlow.withoutWindows (flow : QueueFlow) : QueueFlow :=
  { flow with
    breakerWindowStart := none, breakerWindowFailures := 0, breakerWindowSuccesses := 0
    breakerLatencyWindowStart := none, breakerLatencySumMs := 0, breakerLatencyCount := 0 }

/-- `trip_breaker`. -/
def tripBreaker (env : Env) (queue : String) (db : Db) : Call Db :=
  updateBreaker env queue (fun flow => { flow.withoutWindows with
    breakerState := .opened, breakerTrippedAt := some env.now, breakerProbeSuccesses := 0
    breakerOpenedTotal := flow.breakerOpenedTotal + 1 }) db

/-- `force_close_breaker`. -/
def forceCloseBreaker (env : Env) (queue : String) (db : Db) : Call Db :=
  updateBreaker env queue (fun flow => { flow.withoutWindows with
    breakerState := .closed, breakerFailureStreak := 0, breakerProbeSuccesses := 0
    rampStartedAt := some env.now }) db

/-- `set_priority_aging`. -/
def setPriorityAging (env : Env) (queue : String) (aging : Option ℤ) (db : Db) :
    Call (Upsert × Db) := do
  ensure ((db.queues.get? queue).isSome) noSuchQueue
  ensure (aging.all (0 < ·)) (tq422 "aging_seconds must be NULL or > 0")
  .ok (upsertFlow env queue (fun flow => { flow with priorityAgingSeconds := aging }) db)

end BreakerConfig

section Ownership

/-- The schedule enqueues into this queue. -/
def targetsQueue (queue : String) (s : ScheduleRow) : Bool :=
  s.target.fieldText? "kind" = some "job" && s.target.fieldText? "queue" = some queue

/-- Hand a queue and the schedules that target it to an owner role. -/
def assignOwner (env : Env) (queue : String) (q : Queue) (owner : ℕ) (db : Db) : Db :=
  let assign (s : Schedule) : Schedule :=
    if targetsQueue queue s.toScheduleRow then
      { s with admissionOwnerOid := some owner, updatedAt := env.now } else s
  let db := db.putQueue queue { q with admissionOwnerOid := some owner, updatedAt := env.now }
  { db with scheduling := { db.scheduling with
      schedules := db.scheduling.schedules.mapRows assign } }

/-- The role that becomes the owner, once the caller may choose it. -/
def resolveOwner (env : Env) (role : Option String) : Call ℕ :=
  match role.bind env.ownerRole with
  | none => .error (tq422 "owner role must be an existing producer member")
  | some owner => do
    ensure env.expectedTarget attestationRequired
    .ok owner

def requiresOperator (action : String) : SqlError :=
  .mk' .tq403 ("queue admission " ++ action ++ " requires operator role")

def ownerAlreadySet : SqlError := .mk' .tq409 "queue admission owner is already set"

/-- No active schedule targets the queue. -/
def checkSchedulesPaused (action queue : String) (db : Db) : Call Unit :=
  ensure (db.scheduling.schedules.count
      (fun _ s => targetsQueue queue s.toScheduleRow ∧ s.state = .active) = 0)
    (.because .tq409 ("active schedules must be paused " ++ action) "queue_owner_active_schedule")

/-- `bind_queue_admission_owner`: only for a queue that holds no job. -/
def bindQueueAdmissionOwner (env : Env) (queue : String) (role : Option String) (db : Db) :
    Call Db := do
  ensure env.operator (requiresOperator "binding")
  let owner ← resolveOwner env role
  match db.queues.get? queue with
  | none => .error (.mk' .tq001 ("unknown queue " ++ queue))
  | some q => do
    ensure (q.admissionOwnerOid.isNone) ownerAlreadySet
    ensure (db.jobs.count (fun _ j => j.queue = queue) = 0)
      (.mk' .tq409 "queue must be empty before binding")
    ensure (db.admissions.count (fun _ a => a.queue = queue) = 0)
      (.mk' .tq409 "queue must have no admission state before binding")
    checkSchedulesPaused "before binding" queue db
    .ok (assignOwner env queue q owner db)

/-- Actor and reason of an ownership change. -/
def auditOk (actor reason : Option String) : Bool :=
  actor.any (fun a => 1 ≤ octetLength a && octetLength a ≤ 255) &&
  reason.any fun r => 1 ≤ octetLength r && octetLength r ≤ 500

/-- The queue is paused, and no live job, open reservation or active schedule uses it. -/
def checkQuiesced (change queue : String) (q : Queue) (db : Db) : Call Unit := do
  let purpose := "for ownership " ++ change
  ensure (q.pausedAt.isSome)
    (.because .tq409 ("queue must be paused " ++ purpose) "queue_owner_not_paused")
  ensure (db.jobs.count (fun _ j => j.queue = queue ∧ j.status.active) = 0 ∧
    db.admissions.count (fun _ a => a.queue = queue ∧ a.state = .reserved) = 0)
    (.because .tq409 ("queue must have no active jobs or reservations " ++ purpose)
      "queue_owner_not_quiesced")
  checkSchedulesPaused purpose queue db

/-- What adoption and rotation share; they differ in the owner that the queue must have. -/
def changeOwner (env : Env) (change queue : String) (role actor reason : Option String)
    (checkOwner : Option ℕ → ℕ → Call Unit) (db : Db) : Call Db := do
  ensure env.operator (requiresOperator change)
  ensure (auditOk actor reason = true) (tq422 (change ++ " actor and reason are required"))
  let owner ← resolveOwner env role
  match db.queues.get? queue with
  | none => .error (.mk' .tq001 ("unknown queue " ++ queue))
  | some q => do
    checkOwner q.admissionOwnerOid owner
    checkQuiesced change queue q db
    .ok (assignOwner env queue q owner db)

/-- `adopt_queue_admission_owner`. -/
def adoptQueueAdmissionOwner (env : Env) (queue : String) (role actor reason : Option String)
    (db : Db) : Call Db :=
  changeOwner env "adoption" queue role actor reason
    (fun current _ => ensure current.isNone ownerAlreadySet) db

/-- `rotate_queue_admission_owner`. -/
def rotateQueueAdmissionOwner (env : Env) (queue : String) (role actor reason : Option String)
    (db : Db) : Call Db :=
  changeOwner env "rotation" queue role actor reason
    (fun current owner => do
      ensure current.isSome (.mk' .tq409 "queue admission owner is not set")
      ensure (current ≠ some owner) (.mk' .tq409 "queue admission owner is unchanged")) db

end Ownership

end Taskq
