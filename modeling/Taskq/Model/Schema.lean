import Mathlib.Data.Finset.Sort
import Taskq.Library.Table
import Taskq.Model.Values

/-! The tables that the functions read and write, each row with the columns of the final schema.
Rows under a CHECK that relates several columns carry the check as a field. -/
namespace Taskq
open Relational

inductive JobStatus where
  | blocked | queued | running | succeeded | failed | cancelled
  deriving DecidableEq, Repr

namespace JobStatus

def terminal : JobStatus → Bool
  | .succeeded | .failed | .cancelled => true
  | _ => false

/-- The statuses of the partial index `jobs_idem_uq`. -/
def active (s : JobStatus) : Bool := !s.terminal

def text : JobStatus → String
  | .blocked => "blocked"
  | .queued => "queued"
  | .running => "running"
  | .succeeded => "succeeded"
  | .failed => "failed"
  | .cancelled => "cancelled"

end JobStatus

inductive BackoffMode where
  | fixed | exponential
  deriving DecidableEq, Repr

def BackoffMode.text : BackoffMode → String
  | .fixed => "fixed"
  | .exponential => "exponential"

/-- The columns of `jobs`. -/
structure JobRow where
  queue : String
  jobType : String
  status : JobStatus
  priority : ℤ
  payload : Jsonb
  headers : Option Jsonb
  idempotencyKey : Option String
  concurrencyKey : Option String
  affinityKey : Option String
  flowKey : Option String
  workflowId : Option Uuid
  stepKey : Option String
  workflowIntentHash : Option String
  continuationPolicyHash : Option String
  parentJobId : Option Uuid
  admissionId : Option Uuid
  pendingDeps : ℤ
  scheduledAt : Time
  expiresAt : Option Time
  leaseSeconds : ℤ
  leaseExpiresAt : Option Time
  workerId : Option String
  currentAttemptId : Option Uuid
  attemptCount : ℤ
  failureCount : ℤ
  releaseCount : ℤ
  expiryStreak : ℤ
  maxAttempts : ℤ
  backoffMode : BackoffMode
  backoffBaseSeconds : ℤ
  backoffCapSeconds : ℤ
  cancelRequestedAt : Option Time
  cancelReason : Option String
  progress : Option Jsonb
  result : Option Jsonb
  error : Option String
  outcome : Option String
  finishedByAttemptId : Option Uuid
  createdAt : Time
  updatedAt : Time
  startedAt : Option Time
  finishedAt : Option Time
  deriving DecidableEq, Repr

namespace JobRow

/-- The range checks and length checks on single columns. -/
def columnsOk (r : JobRow) : Bool :=
  r.jobType.length ≤ 120 && 0 ≤ r.priority && r.priority ≤ 1000 &&
  r.idempotencyKey.all (·.length ≤ 255) && r.concurrencyKey.all (·.length ≤ 120) &&
  r.affinityKey.all (·.length ≤ 120) &&
  r.flowKey.all (fun k => 1 ≤ k.length && k.length ≤ 120) &&
  0 ≤ r.pendingDeps && 15 ≤ r.leaseSeconds && r.leaseSeconds ≤ 86400 &&
  1 ≤ r.maxAttempts && r.maxAttempts ≤ 100 && r.continuationPolicyHash.all isSha256

/-- `jobs_workflow_member_shape_ck` and `jobs_continuation_policy_shape_ck`. -/
def memberShape (r : JobRow) : Bool :=
  (match r.workflowId with
    | none => r.stepKey.isNone && r.workflowIntentHash.isNone
    | some _ => r.stepKey.isSome && r.workflowIntentHash.any isSha256) &&
  (r.continuationPolicyHash.isNone || r.workflowId.isSome)

/-- `jobs_running_shape`. -/
def runningShape (r : JobRow) : Bool :=
  (r.status = .running) = (r.currentAttemptId.isSome && r.leaseExpiresAt.isSome)

/-- `jobs_terminal_shape`. -/
def terminalShape (r : JobRow) : Bool := r.status.terminal = r.finishedAt.isSome

def checksOk (r : JobRow) : Bool :=
  r.columnsOk && r.memberShape && r.runningShape && r.terminalShape

end JobRow

/-- A stored job: a row that satisfies the CHECK constraints of `jobs`. -/
structure Job extends JobRow where
  checks : toJobRow.checksOk = true
  deriving DecidableEq, Repr

inductive AttemptStatus where
  | running | succeeded | failed | released | snoozed | expired | cancelled
  deriving DecidableEq, Repr

/-- A row of the attempt ledger; its id is the fencing token handed to the worker. -/
structure Attempt where
  jobId : Uuid
  workerId : String
  status : AttemptStatus
  outcome : Option String
  claimedAt : Time
  leaseSeconds : ℤ
  finishedAt : Option Time
  error : Option String
  stats : Option Jsonb
  deriving DecidableEq, Repr

inductive WorkflowStatus where
  | running | succeeded | failed | cancelled
  deriving DecidableEq, Repr

inductive WorkflowKind where
  | dag | batch
  deriving DecidableEq, Repr

def WorkflowStatus.text : WorkflowStatus → String
  | .running => "running"
  | .succeeded => "succeeded"
  | .failed => "failed"
  | .cancelled => "cancelled"

/-- The columns of `workflows`. -/
structure WorkflowRow where
  workflowKey : String
  kind : WorkflowKind
  status : WorkflowStatus
  params : Jsonb
  createdBy : String
  declaredQueues : List String
  sealedAt : Option Time
  sealedBy : Option String
  cancelRequestedAt : Option Time
  cancelRequestedBy : Option String
  cancelReason : Option String
  memberLimit : Option ℤ
  continuationPolicyHash : Option String
  createdAt : Time
  updatedAt : Time
  finishedAt : Option Time
  deriving DecidableEq, Repr

/-- `workflows_sealed_shape_ck`, `workflows_cancel_shape_ck`, `workflows_finished_shape_ck`, the
bounds of the declared queues and the member limit, and the policy shape. -/
def WorkflowRow.checksOk (r : WorkflowRow) : Bool :=
  r.sealedAt.isNone = r.sealedBy.isNone && r.cancelRequestedAt.isNone = r.cancelRequestedBy.isNone &&
  (r.status = .running) = r.finishedAt.isNone &&
  1 ≤ r.declaredQueues.length && r.declaredQueues.length ≤ 32 &&
  r.memberLimit.all (fun n => 1 ≤ n && n ≤ 1000000) && r.continuationPolicyHash.all isSha256 &&
  (r.continuationPolicyHash.isNone || r.memberLimit.isSome)

/-- A stored workflow: a row that satisfies the CHECK constraints of `workflows`. -/
structure Workflow extends WorkflowRow where
  checks : toWorkflowRow.checksOk = true
  deriving DecidableEq, Repr

/-- A row of `workflow_member_counts`, maintained by trigger. -/
structure MemberCounts where
  blocked : ℤ
  queued : ℤ
  running : ℤ
  succeeded : ℤ
  failed : ℤ
  cancelled : ℤ
  admittedTotal : Option ℤ
  deriving DecidableEq, Repr

inductive NotifyMode where
  | always | onIdleTransition
  deriving DecidableEq, Repr

/-- A queue with its profile, its pause switch and the role that owns its admission. -/
structure Queue where
  profileVersion : ℤ
  pausedAt : Option Time
  pauseReason : Option String
  defaultPriority : ℤ
  defaultLeaseSeconds : ℤ
  defaultMaxAttempts : ℤ
  defaultBackoffMode : BackoffMode
  defaultBackoffBase : ℤ
  defaultBackoffCap : ℤ
  retentionHours : ℤ
  failedRetentionHours : ℤ
  maxDepth : Option ℤ
  notifyEnabled : Bool
  maxRunning : Option ℤ
  claimRatePerMinute : Option ℤ
  claimBurst : Option ℤ
  rampSeconds : Option ℤ
  defaultTtlSeconds : Option ℤ
  backpressureRetrySeconds : ℤ
  notifyMode : NotifyMode
  admissionOwnerOid : Option ℕ
  updatedAt : Time
  deriving DecidableEq, Repr

/-- A row of `queue_counters`, maintained by trigger. -/
structure QueueCounters where
  blocked : ℤ
  queued : ℤ
  running : ℤ
  enqueuedTotal : ℤ
  requeuedTotal : ℤ
  succeededTotal : ℤ
  failedTotal : ℤ
  cancelledTotal : ℤ
  updatedAt : Time
  deriving DecidableEq, Repr

inductive BreakerState where
  | closed | opened | halfOpen
  deriving DecidableEq, Repr

def BreakerState.text : BreakerState → String
  | .closed => "closed"
  | .opened => "open"
  | .halfOpen => "half_open"

/-- The failure-rate trip of a breaker; `set_breaker_rate` writes its three columns together. -/
structure BreakerRate where
  failureRatio : ℚ
  windowSeconds : ℤ
  minVolume : ℤ
  deriving DecidableEq, Repr

/-- The latency trip of a breaker; `set_breaker_latency` writes its three columns together. -/
structure BreakerLatency where
  thresholdMs : ℤ
  windowSeconds : ℤ
  minVolume : ℤ
  deriving DecidableEq, Repr

/-- A row of `queue_flow`: the token bucket, the ramp, the breaker and the aging of a queue. The
theoretical arrival time is kept exactly, in microseconds. -/
structure QueueFlow where
  tat : Option ℚ
  rampStartedAt : Option Time
  breakerFailureThreshold : Option ℤ
  breakerCooldownSeconds : Option ℤ
  breakerHalfOpenSuccesses : Option ℤ
  breakerState : BreakerState
  breakerFailureStreak : ℤ
  breakerTrippedAt : Option Time
  breakerProbeSuccesses : ℤ
  breakerOpenedTotal : ℤ
  breakerRate : Option BreakerRate
  breakerWindowStart : Option Time
  breakerWindowFailures : ℤ
  breakerWindowSuccesses : ℤ
  breakerLatency : Option BreakerLatency
  breakerLatencyWindowStart : Option Time
  breakerLatencySumMs : ℤ
  breakerLatencyCount : ℤ
  priorityAgingSeconds : Option ℤ
  updatedAt : Time
  deriving DecidableEq, Repr

/-- A `queue_flow` row with the column defaults. -/
def QueueFlow.fresh (now : Time) : QueueFlow where
  tat := none
  rampStartedAt := none
  breakerFailureThreshold := none
  breakerCooldownSeconds := none
  breakerHalfOpenSuccesses := none
  breakerState := .closed
  breakerFailureStreak := 0
  breakerTrippedAt := none
  breakerProbeSuccesses := 0
  breakerOpenedTotal := 0
  breakerRate := none
  breakerWindowStart := none
  breakerWindowFailures := 0
  breakerWindowSuccesses := 0
  breakerLatency := none
  breakerLatencyWindowStart := none
  breakerLatencySumMs := 0
  breakerLatencyCount := 0
  priorityAgingSeconds := none
  updatedAt := now

structure FlowLimit where
  ratePerMinute : ℤ
  burst : Option ℤ
  deriving DecidableEq, Repr

inductive AdmissionState where
  | reserved | admitted | cancelled
  deriving DecidableEq, Repr

/-- A two-phase admission. -/
structure Admission where
  queue : String
  idempotencyKey : String
  intentHash : String
  handle : Uuid
  state : AdmissionState
  reservationExpiresAt : Time
  receiptTtlSeconds : ℤ
  finishHash : Option String
  jobId : Option Uuid
  receipt : Option Jsonb
  receiptExpiresAt : Option Time
  createdAt : Time
  updatedAt : Time
  deriving DecidableEq, Repr

/-- A row of the append-only audit log `job_events`. -/
structure Event where
  jobId : Uuid
  attemptId : Option Uuid
  eventType : String
  actor : Option String
  message : Option String
  data : Option Jsonb
  createdAt : Time
  deriving DecidableEq, Repr

inductive CatchupPolicy where
  | skip | fireOnce | fireAll
  deriving DecidableEq, Repr

inductive ScheduleState where
  | active | paused | retired
  deriving DecidableEq, Repr

def ScheduleState.text : ScheduleState → String
  | .active => "active"
  | .paused => "paused"
  | .retired => "retired"

inductive OverlapPolicy where
  | forbid | allow
  deriving DecidableEq, Repr

/-- The lease that one scheduler engine holds on a schedule. -/
structure ScheduleClaim where
  token : Uuid
  asOf : Time
  claimedBy : String
  expiresAt : Time
  deriving DecidableEq, Repr

inductive ActionOutcome where
  | initialized | skipped | fired | errorRecorded | autoPaused | stale
  deriving DecidableEq, Repr

def ActionOutcome.text : ActionOutcome → String
  | .initialized => "initialized"
  | .skipped => "skipped"
  | .fired => "fired"
  | .errorRecorded => "error_recorded"
  | .autoPaused => "auto_paused"
  | .stale => "stale"

/-- The stored answer of a fire or error call, `last_action_result`. -/
structure StoredAction where
  outcome : ActionOutcome
  jobsEnqueued : ℤ
  nextFireAt : Time
  state : ScheduleState
  version : ℤ
  deriving DecidableEq, Repr

/-- The last action of a schedule: its token, the hash of its arguments and its answer. -/
structure LastAction where
  token : Uuid
  hash : String
  result : StoredAction
  deriving DecidableEq, Repr

/-- Who paused a schedule and why. -/
structure PauseAudit where
  pausedReason : String
  pausedBy : String
  pausedAt : Time
  deriving DecidableEq, Repr

/-- The columns of `schedules`. The columns that `schedules_claim_shape_ck`,
`schedules_last_action_shape_ck` and `schedules_paused_audit_ck` null together are one field each. -/
structure ScheduleRow where
  name : String
  target : Jsonb
  recurrence : Jsonb
  catchupPolicy : CatchupPolicy
  maxCatchup : ℤ
  state : ScheduleState
  initialized : Bool
  nextFireAt : Time
  lastFireAt : Option Time
  version : ℤ
  claim : Option ScheduleClaim
  retryNotBefore : Option Time
  lastError : Option String
  lastAction : Option LastAction
  createdBy : String
  updatedBy : String
  createdAt : Time
  updatedAt : Time
  retiredAt : Option Time
  ownerNamespace : String
  source : String
  manifestKey : String
  displayName : String
  definitionHash : String
  overlapPolicy : OverlapPolicy
  maxLatenessSeconds : Option ℤ
  consecutiveDefinitionErrors : ℤ
  pausedAudit : Option PauseAudit
  smearSeconds : Option ℤ
  admissionOwnerOid : Option ℕ
  deriving DecidableEq, Repr

/-- The constraints that the verbs can meet: the retired shape, the pause audit, the bounds of the
error counter and of the catch-up limit. -/
def ScheduleRow.checksOk (r : ScheduleRow) : Bool :=
  1 ≤ r.maxCatchup && r.maxCatchup ≤ 100 && 0 < r.version &&
  (r.state = .retired) = r.retiredAt.isSome &&
  0 ≤ r.consecutiveDefinitionErrors && r.consecutiveDefinitionErrors ≤ 3 &&
  r.pausedAudit.all (fun p => r.state = .paused && 1 ≤ octetLength p.pausedReason &&
    octetLength p.pausedReason ≤ 500 && 1 ≤ octetLength p.pausedBy && octetLength p.pausedBy ≤ 255)

/-- A stored schedule: a row that satisfies the CHECK constraints of `schedules`. -/
structure Schedule extends ScheduleRow where
  checks : toScheduleRow.checksOk = true
  deriving DecidableEq, Repr

inductive OccurrenceOutcome where
  | fired | lateSkipped | overlapSkipped
  deriving DecidableEq, Repr

/-- A row of `schedule_occurrences`, stored under its schedule and its due instant. `xmin` is the
transaction that wrote the row last. -/
structure Occurrence where
  occurrenceId : Uuid
  outcome : OccurrenceOutcome
  jobId : Option Uuid
  decisionId : Option Uuid
  createdAt : Time
  xmin : ℕ
  deriving DecidableEq, Repr

inductive DecisionAction where
  | initialized | skipped | fired | error | autoPaused | paused | resumed
  deriving DecidableEq, Repr

/-- A row of `schedule_decisions`. -/
structure Decision where
  scheduleId : Uuid
  actionToken : Uuid
  definitionVersion : ℤ
  databaseAsOf : Time
  cursorFrom : Time
  cursorTo : Time
  action : DecisionAction
  selectedCount : ℤ
  jobsEnqueued : ℤ
  summary : Jsonb
  schedulerId : String
  createdAt : Time
  deriving DecidableEq, Repr

end Taskq
