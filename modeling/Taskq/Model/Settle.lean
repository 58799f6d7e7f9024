import Taskq.Model.Continuation

/-! The verbs by which a worker reports on its attempt: heartbeat and the five settlements. -/
namespace Taskq
open Relational

inductive SettleOutcome where
  | ok | retryScheduled | dead | alreadySettled | settleConflict | lost
  deriving DecidableEq, Repr

/-- `taskq.settle_result`. -/
structure SettleResult where
  outcome : SettleOutcome
  jobStatus : Option JobStatus
  nextAt : Option Time
  deriving DecidableEq, Repr

def workerRequired : SqlError := tq422 "worker_id required (<=200 chars)"

/-- `worker_id` is present, not empty and at most 200 characters long. -/
def workerOk (worker : Option String) : Bool :=
  worker.any fun w => w ≠ "" && w.length ≤ 200

def progressLimit : SqlError := tq422 "progress exceeds the 2KB limit"

/-- The job, when it is running under this attempt. -/
def runningJob (core : Core) (jobId attemptId : Uuid) : Option Job :=
  (core.jobs.get? jobId).filter fun j => j.status = .running && j.currentAttemptId = some attemptId

def jobStatus? (core : Core) (jobId : Uuid) : Option JobStatus :=
  (core.jobs.get? jobId).map (·.status)

/-- The answer to a settlement of an attempt that no longer runs the job: the ledger says whether
this verb settled it, another verb did, or the attempt was never there. -/
def replayAnswer (core : Core) (jobId attemptId : Uuid) (own : AttemptStatus) : SettleResult :=
  match (core.attempts.get? attemptId).filter (·.jobId = jobId) with
  | none => ⟨.lost, none, none⟩
  | some a =>
    if a.status = own then ⟨.alreadySettled, jobStatus? core jobId, none⟩
    else if a.status = .running then ⟨.lost, none, none⟩
    else ⟨.settleConflict, jobStatus? core jobId, none⟩

/-- The job row after its attempt is over: no worker, no attempt, no lease. -/
def JobRow.detached (r : JobRow) : JobRow :=
  { r with workerId := none, currentAttemptId := none, leaseExpiresAt := none }

section Backoff

/-- `backoff_seconds`. -/
def backoffSeconds (env : Env) (id : Uuid) (mode : BackoffMode) (base cap failures : ℤ) : Call ℤ := do
  let raw : ℤ :=
    match mode with
    | .exponential => base * 2 ^ (min (max (failures - 1) 0) 16).toNat
    | .fixed => base
  let jittered : ℚ := (min cap raw : ℤ) * (85 / 100 + (env.jitter id).1 * (30 / 100))
  int4 (max 1 (roundHalfEven jittered))

end Backoff

section Heartbeat

/-- The row that `heartbeat` returns. -/
structure BeatResult where
  ok : Bool
  cancelRequested : Bool
  leaseExpiresAt : Option Time
  deriving DecidableEq, Repr

def heartbeat (env : Env) (jobId attemptId : Uuid) (worker : Option String) (lease : Option ℤ)
    (progress stats : Option Jsonb) (db : Db) : Call (BeatResult × Db) := do
  ensure (workerOk worker) workerRequired
  ensure (lease.all fun n => 15 ≤ n ∧ n ≤ 86400)
    (tq422 ("lease override must be 15..86400 seconds, got " ++ shown lease))
  ensure (withinBytes 2048 progress)
    (tq422 "progress exceeds the 2KB limit — keep it a cursor, not a result set")
  match (runningJob db.toCore jobId attemptId).filter (·.workerId = worker) with
  | none => .ok (⟨false, false, none⟩, db)
  | some job => do
    let expires := env.now + seconds (lease.getD job.leaseSeconds)
    let db ← writeJob env jobId job
      { job.toJobRow with leaseExpiresAt := some expires, progress := progress <|> job.progress,
                          updatedAt := env.now } db
    let db := if stats.isSome then updateAttempt attemptId (fun a => { a with stats := stats }) db
      else db
    .ok (⟨true, job.cancelRequestedAt.isSome, some expires⟩, db)

end Heartbeat

section Complete

/-- Shape checks that both completions make on a followup spec; returns its step. -/
def checkFollowupShape (keys : List String) (spec : Jsonb) (index : ℤ) (steps : List String) :
    Call (List String) := do
  ensure (spec.kind = .object ∧ spec.keys.all keys.contains) (followupError index " has invalid shape")
  ensure (¬badMemberFlag spec) (tq422 "workflow_member may only be true when present")
  let step := (spec.fieldText? "step").getD ""
  ensure (isStepKey step) (followupError index " has invalid step")
  ensure (step ∉ steps) (tq422 "duplicate followup step")
  .ok (steps ++ [step])

/-- The specs of a completion, checked in order; without member followups. -/
def checkFollowups (keys : List String) : List Jsonb → ℤ → List String → Call Unit
  | [], _, _ => .ok ()
  | spec :: specs, index, steps => do
    let steps ← checkFollowupShape keys spec index steps
    checkFollowups keys specs (index + 1) steps

/-- The specs of a policy-aware completion, checked in order; returns how many are members. -/
def checkPolicyFollowups (job : JobRow) (declared : List String) :
    List Jsonb → ℤ → List String → Call ℤ
  | [], _, _ => .ok 0
  | spec :: specs, index, steps => do
    let steps ← checkFollowupShape (memberKey :: followupKeys) spec index steps
    if spec.hasKey memberKey then do
      ensure (job.workflowId.isSome ∧ job.continuationPolicyHash.isSome)
        (.because .tq422 "continuation parent is not a policy workflow member"
          "continuation_parent_not_member")
      ensure ((spec.fieldText? "queue").getD job.queue ∈ declared)
        (.because .tq422 "continuation queue is not declared by the workflow"
          "continuation_queue_undeclared")
      let members ← checkPolicyFollowups job declared specs (index + 1) steps
      .ok (members + 1)
    else checkPolicyFollowups job declared specs (index + 1) steps

/-- The blocked children that a completion promotes: unlocked ones, in id order, at most 100. -/
def promotable (env : Env) (parent : Uuid) (core : Core) : List Uuid :=
  ((core.jobs.selectBy (fun id j => (id, parent) ∈ core.deps ∧ j.status = .blocked ∧ ¬env.locked id)
    idLe).take 100).map (·.1)

/-- One dependency satisfied: the edge goes, the counter drops, and the last one queues the child. -/
def promoteChild (env : Env) (parent child : Uuid) (db : Db) : Call Db :=
  if (child, parent) ∈ db.deps then
    let db := { db with deps := db.deps.erase (child, parent) }
    match db.jobs.get? child with
    | none => .ok db
    | some job =>
      if job.status = .blocked then do
        let status := if job.pendingDeps = 1 then .queued else job.status
        let db ← writeJob env child job
          { job.toJobRow with pendingDeps := job.pendingDeps - 1, status := status,
                              updatedAt := env.now } db
        .ok (if status = .queued ∧ job.scheduledAt ≤ env.now ∧
            (db.queues.get? job.queue).any (·.notifyEnabled)
          then notifyQueue job.queue db else db)
      else .ok db
  else .ok db

/-- Insert the followups in order. -/
def enqueueFollowups (env : Env) (parentId : Uuid) (parentQueue : String) :
    List Jsonb → ℤ → Db → Call Db
  | [], _, db => .ok db
  | spec :: specs, index, db => do
    let (_, db) ← enqueueFollowup env parentId parentQueue spec index db
    enqueueFollowups env parentId parentQueue specs (index + 1) db

/-- What both completions do once every check has passed. -/
def settleSucceeded (env : Env) (jobId attemptId : Uuid) (worker : Option String)
    (result stats : Option Jsonb) (specs : List Jsonb) (job : Job) (db : Db) :
    Call (SettleResult × Db) := do
  let db ← writeJob env jobId job
    { job.toJobRow.detached with
        status := .succeeded, outcome := some "success", result := result <|> job.result
        error := none, expiryStreak := 0, finishedAt := some env.now
        finishedByAttemptId := some attemptId, updatedAt := env.now } db
  let db := closeAttempt attemptId (fun a => { a with
    status := .succeeded, outcome := some "success", finishedAt := some env.now
    stats := stats <|> a.stats }) db
  let db ← forEach (promoteChild env jobId) (promotable env jobId db.toCore) db
  let db ← emitEvent env jobId (some attemptId) "succeeded" worker none none db
  let db ← enqueueFollowups env jobId job.queue specs 1 db
  .ok (⟨.ok, some .succeeded, none⟩, db)

/-- The checks that both completions make before they look at the job. -/
def checkCompletion (worker : Option String) (result followups : Option Jsonb) : Call Unit := do
  ensure (workerOk worker) workerRequired
  ensure (withinBytes 8192 result) (tq422 "result exceeds the 8KB limit")
  ensure (followups.all (·.kind = .array)) (tq422 "p_followups must be a jsonb array")

def followupSpecs (followups : Option Jsonb) : List Jsonb := (followups.map (·.elements)).getD []

/-- `complete_job`, the overload without a policy witness. -/
def completeJob (env : Env) (jobId attemptId : Uuid) (worker : Option String)
    (result stats followups : Option Jsonb) (db : Db) : Call (SettleResult × Db) := do
  checkCompletion worker result followups
  match db.jobs.get? jobId with
  | none => .ok (⟨.lost, none, none⟩, db)
  | some job =>
    if job.status ≠ .running ∨ job.currentAttemptId ≠ some attemptId then
      .ok (replayAnswer db.toCore jobId attemptId .succeeded, db)
    else do
      ensure (job.continuationPolicyHash.isNone)
        (.because .tq422 "policy-bearing jobs require policy-aware completion"
          "continuation_policy_required")
      let specs := followupSpecs followups
      ensure (specs.length ≤ 20) (tq422 "followup cap is 20 per settlement")
      checkFollowups followupKeys specs 1 []
      settleSucceeded env jobId attemptId worker result stats specs job db

/-- The witness a policy-aware completion presents must be the job's own policy. -/
def checkPolicyWitness (job : JobRow) (witness : Option String) (db : Db) : Call (List String) :=
  match job.continuationPolicyHash, witness with
  | none, none => .ok []
  | none, some _ => .error (.because .tq409 "continuation policy witness does not match"
      "continuation_policy_mismatch")
  | some _, none => .error (.because .tq422 "continuation policy witness is required"
      "continuation_policy_required")
  | some policy, some presented => do
    ensure (presented = policy) (.because .tq409 "continuation policy witness does not match"
      "continuation_policy_mismatch")
    match job.workflowId.bind db.workflows.get? with
    | none => .error (.mk' .tq500 "continuation policy identity is inconsistent")
    | some workflow => do
      ensure (workflow.continuationPolicyHash = some policy)
        (.mk' .tq500 "continuation policy identity is inconsistent")
      ensure (workflow.status = .running)
        (.mk' .tq500 "continuation parent belongs to a terminal workflow")
      .ok workflow.declaredQueues

/-- Reserve membership for the member followups of a completion, if it has any. -/
def reserveFollowups (job : JobRow) (members : ℤ) (db : Db) : Call Db :=
  match job.workflowId with
  | some w => if 0 < members then reserveWorkflowMembers w members job.continuationPolicyHash db
      else .ok db
  | none => .ok db

/-- `complete_job`, the policy-aware overload. -/
def completeJobWithPolicy (env : Env) (jobId attemptId : Uuid) (worker : Option String)
    (result stats followups : Option Jsonb) (policyHash : Option String) (db : Db) :
    Call (SettleResult × Db) := do
  checkCompletion worker result followups
  match db.jobs.get? jobId with
  | none => .ok (⟨.lost, none, none⟩, db)
  | some job =>
    if job.status ≠ .running ∨ job.currentAttemptId ≠ some attemptId then
      .ok (replayAnswer db.toCore jobId attemptId .succeeded, db)
    else do
      let declared ← checkPolicyWitness job.toJobRow policyHash db
      let specs := followupSpecs followups
      ensure (specs.length ≤ 20) (tq422 "followup cap is 20 per settlement")
      let members ← checkPolicyFollowups job.toJobRow declared specs 1 []
      let db ← reserveFollowups job.toJobRow members db
      settleSucceeded env jobId attemptId worker result stats specs job db

end Complete

section Fail

/-- Settle a job whose cancellation was requested while it ran: it lands cancelled. -/
def settleCancelled (env : Env) (jobId attemptId : Uuid) (worker message : Option String)
    (row : JobRow → JobRow) (ledger : Attempt → Attempt) (job : Job) (db : Db) :
    Call (SettleResult × Db) := do
  let db ← writeJob env jobId job
    (row { job.toJobRow.detached with
      status := .cancelled, outcome := some "canceled", finishedAt := some env.now
      finishedByAttemptId := some attemptId, updatedAt := env.now }) db
  let db := closeAttempt attemptId (fun a => ledger { a with
    status := .cancelled, outcome := some "canceled", finishedAt := some env.now }) db
  let db ← emitEvent env jobId (some attemptId) "cancelled" worker message none db
  .ok (⟨.ok, some .cancelled, none⟩, db)

/-- The delay that the worker asked for, else the backoff. -/
def retryDelay (env : Env) (jobId : Uuid) (retryAfter : Option ℤ) (job : JobRow) : Call ℤ :=
  match retryAfter with
  | some n => .ok n
  | none =>
    backoffSeconds env jobId job.backoffMode job.backoffBaseSeconds job.backoffCapSeconds
      (job.failureCount + 1)

/-- The failed attempt is followed by another one after a delay. -/
def scheduleRetry (env : Env) (jobId attemptId : Uuid) (worker error : Option String)
    (retryAfter : Option ℤ) (progress : Option Jsonb) (job : Job) (db : Db) :
    Call (SettleResult × Db) := do
  let delay ← retryDelay env jobId retryAfter job.toJobRow
  let next := env.now + seconds delay
  let db ← writeJob env jobId job
    { job.toJobRow.detached with
        status := .queued, scheduledAt := next, failureCount := job.failureCount + 1
        expiryStreak := 0, progress := progress <|> job.progress, error := storedText error
        updatedAt := env.now } db
  let db := updateAttempt attemptId (fun a => { a with outcome := some "retry_scheduled" }) db
  let db ← emitEvent env jobId (some attemptId) "retry_scheduled" worker error
    (some (.build [("delay_seconds", .ofInt delay), ("next_at", .str (env.timeText next)),
      ("failure", .ofInt (job.failureCount + 1))])) db
  .ok (⟨.retryScheduled, some .queued, some next⟩, db)

/-- The failed attempt was the last: the job is a dead letter. -/
def buryJob (env : Env) (jobId attemptId : Uuid) (worker error : Option String)
    (retryable : Option Bool) (progress : Option Jsonb) (job : Job) (db : Db) :
    Call (SettleResult × Db) := do
  let db ← writeJob env jobId job
    { job.toJobRow.detached with
        status := .failed
        outcome := some (if retryable = some false then "non_retryable" else "retry_exhausted")
        failureCount := job.failureCount + 1, expiryStreak := 0
        progress := progress <|> job.progress, error := storedText error
        finishedAt := some env.now, finishedByAttemptId := some attemptId, updatedAt := env.now } db
  let db := updateAttempt attemptId (fun a => { a with
    outcome := some (if retryable = some true then "retry_exhausted" else "non_retryable") }) db
  let db ← emitEvent env jobId (some attemptId) "failed" worker error none db
  .ok (⟨.dead, some .failed, none⟩, db)

/-- `fail_job`. A missing `retryable` flag is SQL's NULL. -/
def failJob (env : Env) (jobId attemptId : Uuid) (worker error : Option String)
    (retryable : Option Bool) (retryAfter : Option ℤ) (progress stats : Option Jsonb) (db : Db) :
    Call (SettleResult × Db) := do
  ensure (workerOk worker) workerRequired
  ensure (withinBytes 2048 progress) progressLimit
  match runningJob db.toCore jobId attemptId with
  | none => .ok (replayAnswer db.toCore jobId attemptId .failed, db)
  | some job =>
    if job.cancelRequestedAt.isSome then
      settleCancelled env jobId attemptId worker error
        (fun r => { r with progress := progress <|> job.progress, error := storedText error })
        (fun a => { a with error := storedText error, stats := stats <|> a.stats }) job db
    else do
      ensure (retryAfter.all fun n => 0 ≤ n ∧ n ≤ 2592000)
        (tq422 ("retry_after_seconds must be 0..2592000, got " ++ shown retryAfter))
      let db := closeAttempt attemptId (fun a => { a with
        status := .failed, finishedAt := some env.now, error := storedText error
        stats := stats <|> a.stats }) db
      if retryable = some true ∧ job.failureCount + 1 < job.maxAttempts then
        scheduleRetry env jobId attemptId worker error retryAfter progress job db
      else buryJob env jobId attemptId worker error retryable progress job db

end Fail

section Park

/-- `snooze_job`. -/
def snoozeJob (env : Env) (jobId attemptId : Uuid) (worker : Option String) (delay : Option ℤ)
    (reason : Option String) (progress : Option Jsonb) (db : Db) : Call (SettleResult × Db) := do
  ensure (workerOk worker) workerRequired
  ensure (delay.any fun n => 0 ≤ n ∧ n ≤ 2592000)
    (tq422 ("snooze delay must be 0..2592000 seconds, got " ++ shown delay))
  ensure (withinBytes 2048 progress) progressLimit
  let next := env.now + seconds (delay.getD 0)
  match runningJob db.toCore jobId attemptId with
  | none => .ok (replayAnswer db.toCore jobId attemptId .snoozed, db)
  | some job => do
    let cancelled := job.cancelRequestedAt.isSome
    let db ← writeJob env jobId job
      { job.toJobRow.detached with
          status := if cancelled then .cancelled else .queued
          outcome := if cancelled then some "canceled" else job.outcome
          finishedAt := if cancelled then some env.now else none
          scheduledAt := next, expiryStreak := 0, progress := progress <|> job.progress
          updatedAt := env.now } db
    let db := closeAttempt attemptId (fun a => { a with
      status := if cancelled then .cancelled else .snoozed
      outcome := some (if cancelled then "canceled" else "snoozed")
      error := storedText reason, finishedAt := some env.now }) db
    if cancelled then do
      let db ← emitEvent env jobId (some attemptId) "cancelled" worker reason none db
      .ok (⟨.ok, some .cancelled, none⟩, db)
    else do
      let db ← emitEvent env jobId (some attemptId) "snoozed" worker reason
        (some (.build [("next_at", .str (env.timeText next))])) db
      .ok (⟨.ok, some .queued, some next⟩, db)

def releaseCauses : List String := ["released", "worker_shutdown", "no_handler"]

/-- `release_job`. -/
def releaseJob (env : Env) (jobId attemptId : Uuid) (worker cause : Option String)
    (delay : Option ℤ) (progress : Option Jsonb) (db : Db) : Call (SettleResult × Db) := do
  ensure (cause.any releaseCauses.contains) (tq422 ("invalid release cause " ++ cause.getD "<NULL>"))
  ensure (delay.any fun n => 0 ≤ n ∧ n ≤ 86400)
    (tq422 ("release delay must be 0..86400, got " ++ shown delay))
  let next := env.now + seconds (delay.getD 0)
  match runningJob db.toCore jobId attemptId with
  | none => .ok (replayAnswer db.toCore jobId attemptId .released, db)
  | some job =>
    if job.cancelRequestedAt.isSome then
      settleCancelled env jobId attemptId worker "cancel on release"
        (fun r => { r with progress := progress <|> job.progress }) id job db
    else do
      let db ← writeJob env jobId job
        { job.toJobRow.detached with
            status := .queued, scheduledAt := next, releaseCount := job.releaseCount + 1
            progress := progress <|> job.progress, updatedAt := env.now } db
      let db := closeAttempt attemptId (fun a => { a with
        status := .released, outcome := cause, finishedAt := some env.now }) db
      let db ← emitEvent env jobId (some attemptId) "released" worker cause none db
      .ok (⟨.ok, some .queued, some next⟩, db)

/-- `cancel_running_job`. -/
def cancelRunningJob (env : Env) (jobId attemptId : Uuid) (worker reason : Option String) (db : Db) :
    Call (SettleResult × Db) :=
  match runningJob db.toCore jobId attemptId with
  | none =>
    let answer := replayAnswer db.toCore jobId attemptId .cancelled
    .ok (if answer.outcome = .alreadySettled then { answer with jobStatus := some .cancelled }
      else answer, db)
  | some job =>
    settleCancelled env jobId attemptId worker reason
      (fun r => { r with error := storedText reason })
      (fun a => { a with error := storedText reason }) job db

end Park

end Taskq
