import Taskq.Model.Workflow

/-! Operator verbs on single jobs and on the jobs of a queue. -/
namespace Taskq
open Relational

def noSuchJob (id : Uuid) : SqlError := .mk' .tq001 ("taskq: no such job " ++ Uuid.text id)

section Cancel

inductive CancelOutcome where
  | alreadyTerminal | cancelled | cancelRequested
  deriving DecidableEq, Repr

/-- `cancel_job`: settle a row that has not started, ask a running one to stop. -/
def cancelJob (env : Env) (id : Uuid) (actor reason : Option String) (db : Db) :
    Call ((CancelOutcome × JobStatus) × Db) :=
  match db.jobs.get? id with
  | none => .error (noSuchJob id)
  | some job =>
    if job.status.terminal then .ok ((.alreadyTerminal, job.status), db)
    else if unstarted job.toJobRow then do
      let db ← writeJob env id job
        { job.toJobRow with
            status := .cancelled, outcome := some "canceled"
            error := storedText (some (reason.getD "cancelled by operator"))
            cancelRequestedAt := job.cancelRequestedAt <|> some env.now
            cancelReason := storedText reason, finishedAt := some env.now, updatedAt := env.now } db
      let db ← emitEvent env id none "cancelled" actor reason none (dropOwnEdges id db)
      .ok ((.cancelled, .cancelled), db)
    else do
      let db ← writeJob env id job
        { job.toJobRow with
            cancelRequestedAt := some env.now, cancelReason := storedText reason
            updatedAt := env.now } db
      let db ← emitEvent env id job.currentAttemptId "cancel_requested" actor reason none db
      .ok ((.cancelRequested, .running), db)

/-- Cancel one row that a purge selected; its own edges stay. -/
def purgeJob (env : Env) (actor reason : Option String) (id : Uuid) (db : Db) : Call Db := do
  let db ← updateJob env id (fun r => { r with
    status := .cancelled, outcome := some "canceled"
    error := storedText (some (reason.getD "purged by operator"))
    cancelRequestedAt := r.cancelRequestedAt <|> some env.now
    cancelReason := storedText reason, finishedAt := some env.now, updatedAt := env.now }) db
  emitEvent env id none "cancelled" actor (some (reason.getD "purged")) none db

def createdLe (a b : Uuid × Job) : Bool :=
  a.2.createdAt < b.2.createdAt || (a.2.createdAt = b.2.createdAt && a.1 ≤ b.1)

/-- The rows of a queue that a purge reaches, the oldest first. -/
def purgeable (env : Env) (queue : String) (core : Core) : List Uuid :=
  (core.jobs.selectBy (fun id j => j.queue = queue ∧ unstarted j.toJobRow ∧ ¬env.locked id)
    createdLe).map (·.1)

/-- The loop of a purge: rows of a batch that an earlier row's event cancelled are written again. -/
def purgeRows (env : Env) (queue : String) (limit : Option ℤ) (actor reason : Option String) (db : Db) :
    Call (List Uuid × Db) :=
  forRows (sameJob db) (purgeJob env actor reason) (min (max (limit.getD 0) 0) 1000).toNat
    (purgeable env queue db.toCore) db

/-- `purge_queued`. -/
def purgeQueued (env : Env) (queue : String) (limit : Option ℤ) (actor reason : Option String)
    (db : Db) : Call (ℤ × Db) := do
  ensure limit.isSome (tq422 "purge limit must not be null")
  ensure ((db.queues.get? queue).isSome) (unknownQueue queue)
  let (ids, db) ← purgeRows env queue limit actor reason db
  .ok (ids.length, db)

end Cancel

section Expire

inductive ExpireOutcome where
  | notRunning | expiredAndReaped
  deriving DecidableEq, Repr

/-- The environment of a transaction that holds the row locks itself. -/
def Env.holding (env : Env) : Env := { env with locked := fun _ => false }

/-- Move a running job's lease into the past. -/
def backdateLease (env : Env) (id : Uuid) (job : Job) (db : Db) : Call Db :=
  writeJob env id job
    { job.toJobRow with leaseExpiresAt := some (env.now - seconds 1), updatedAt := env.now } db

/-- `expire_job`: backdate the lease and reap the row in one transaction. -/
def expireJob (env : Env) (id : Uuid) (actor : Option String) (db : Db) :
    Call (ExpireOutcome × Db) :=
  match db.jobs.get? id with
  | none => .error (noSuchJob id)
  | some job =>
    if job.status = .running then do
      let db ← backdateLease env id job db
      let db ← emitEvent env id none "expire_requested" actor "operator expire" none db
      let (_, db) ← reapJob env.holding id db
      .ok (.expiredAndReaped, db)
    else .ok (.notRunning, db)

/-- The loop of a bulk UPDATE that backdates leases. -/
def backdateAll (env : Env) : List (Uuid × Job) → Db → Call Db :=
  forEach fun (id, job) => backdateLease env id job

/-- `expire_worker_leases`; returns how many rows matched and how many were reaped. -/
def expireWorkerLeases (env : Env) (worker : Option String) (db : Db) : Call ((ℤ × ℤ) × Db) := do
  let held := db.jobs.selectBy (fun _ j => j.status = .running ∧ worker.isSome ∧ j.workerId = worker)
    idLe
  let db ← backdateAll env held db
  let (reaped, db) ← reapAll env.holding (held.map (·.1)) db
  .ok ((held.length, reaped), db)

end Expire

section Redrive

/-- The error that a redrive reports when a live job has taken the idempotency key. -/
def redriveCollision : SqlError :=
  ⟨.tq409, "redrive idempotency collision", some (.str "reason=idempotency_collision")⟩

def notRedrivable : SqlError :=
  ⟨.tq409, "only failed jobs are redrivable", some (.str "reason=not_redrivable")⟩

def mapUniqueViolation (e : SqlError) : SqlError :=
  if e.state = .uniqueViolation then redriveCollision else e

/-- `redrive_job`: queue a dead letter again with a fresh budget. -/
def redriveJob (env : Env) (id : Uuid) (actor : Option String) (resetProgress : Bool) (db : Db) :
    Call Db :=
  match db.jobs.get? id with
  | none => .error (noSuchJob id)
  | some job => do
    ensure (job.workflowId.isNone)
      (.because .tq409 "workflow members cannot be individually redriven"
        "workflow_member_redrive_forbidden")
    ensure (job.status = .failed) notRedrivable
    let db ← (writeJob env id job
      { job.toJobRow with
          status := .queued, scheduledAt := env.now, failureCount := 0, expiryStreak := 0
          outcome := none, finishedAt := none, finishedByAttemptId := none
          cancelRequestedAt := none, cancelReason := none
          progress := if resetProgress then none else job.progress, updatedAt := env.now }
      db).mapError mapUniqueViolation
    let db ← emitEvent env id none "redriven" actor "operator redrive from failed" none db
    .ok (notifyQueue job.queue db)

/-- The scheduled instant of a smeared redrive. -/
def smearedAt (env : Env) (id : Uuid) (smear : ℤ) : Time :=
  env.now + roundHalfEven ((env.jitter id).1 * smear * 1000000)

/-- One row of a bulk redrive; a conflict undoes the row and counts it as skipped. -/
def redriveOne (env : Env) (actor : Option String) (smear : ℤ) (id : Uuid) (db : Db) :
    Call (Bool × Db) :=
  let redriven := do
    let db ← redriveJob env id actor false db
    if 0 < smear then updateJob env id (fun r => { r with scheduledAt := smearedAt env id smear }) db
    else .ok db
  match redriven with
  | .ok db => .ok (true, db)
  | .error e => if e.state = .tq409 then .ok (false, db) else .error e

def redriveAll (env : Env) (actor : Option String) (smear : ℤ) :
    List Uuid → Db → Call ((ℤ × ℤ) × Db)
  | [], db => .ok ((0, 0), db)
  | id :: ids, db => do
    let (done, db) ← redriveOne env actor smear id db
    let ((redriven, skipped), db) ← redriveAll env actor smear ids db
    .ok (if done then (redriven + 1, skipped) else (redriven, skipped + 1), db)

/-- The failed jobs of a queue, the latest first. -/
def deadLetters (queue : String) (core : Core) : List Uuid :=
  (core.jobs.selectBy (fun _ j => j.queue = queue ∧ j.status = .failed)
    (fun a b => b.2.finishedAt.getD 0 ≤ a.2.finishedAt.getD 0)).map (·.1)

/-- `redrive_failed`; returns how many jobs were redriven and how many skipped. -/
def redriveFailed (env : Env) (queue : String) (limit : Option ℤ) (actor : Option String)
    (smear : Option ℤ) (db : Db) : Call ((ℤ × ℤ) × Db) := do
  ensure (limit.any fun n => 1 ≤ n ∧ n ≤ 500) (tq422 "limit must be 1..500")
  ensure (smear.any fun n => 0 ≤ n ∧ n ≤ 86400) (tq422 "smear_seconds must be 0..86400")
  redriveAll env actor (smear.getD 0) ((deadLetters queue db.toCore).take (limit.getD 0).toNat) db

end Redrive

section Adjust

/-- `run_now`: make a queued job ready. -/
def runNow (env : Env) (id : Uuid) (actor : Option String) (db : Db) : Call Db :=
  match db.jobs.get? id with
  | none => .error (noSuchJob id)
  | some job => do
    ensure (job.status = .queued) (.mk' .tq409 ("taskq: job " ++ Uuid.text id ++ " is " ++
      job.status.text ++ " — run_now applies to queued jobs only"))
    let db ← writeJob env id job
      { job.toJobRow with scheduledAt := env.now, updatedAt := env.now } db
    let db ← emitEvent env id none "run_now" actor none none db
    .ok (notifyQueue job.queue db)

/-- `reprioritize`: change the priority of a job that has not started. -/
def reprioritize (env : Env) (id : Uuid) (priority : Option ℤ) (actor : Option String) (db : Db) :
    Call Db := do
  ensure (priority.any fun n => 0 ≤ n ∧ n ≤ 1000)
    (tq422 ("priority must be 0..1000, got " ++ shown priority))
  match db.jobs.get? id with
  | none => .error (noSuchJob id)
  | some job => do
    ensure (unstarted job.toJobRow) (.mk' .tq409 ("taskq: job " ++ Uuid.text id ++ " is " ++
      job.status.text ++ " — reprioritize applies to queued/blocked jobs only"))
    let db ← writeJob env id job
      { job.toJobRow with priority := priority.getD 0, updatedAt := env.now } db
    emitEvent env id none "reprioritized" actor none
      (some (.build [("priority", .ofInt (priority.getD 0))])) db

end Adjust

end Taskq
