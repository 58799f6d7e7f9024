import Taskq.Model.Claim
import Taskq.Model.Operator

/-! The two maintenance entry points: `tick`, which runs every settling pass, and `janitor`, which
deletes what retention no longer keeps. Each pass runs in a block with its own handler. -/
namespace Taskq
open Relational

/-- Run a pass in its exception block; no count when the handler was reached. -/
def inBlock (pass : Db → Call (ℤ × Db)) (db : Db) : Option ℤ × Db :=
  match pass db with
  | .ok (n, db) => (some n, db)
  | .error _ => (none, db)

section Tick

/-- The object that `tick` returns; a pass that ended in its handler has no entry. -/
structure TickReport where
  skipped : Bool
  reaped : Option ℤ
  ttlExpired : Option ℤ
  cancelFinalized : Option ℤ
  workflowCancelled : Option ℤ
  dependencyFinalized : Option ℤ
  workflowsFinalized : Option ℤ
  deriving DecidableEq, Repr

/-- `tick`. -/
def tick (env : Env) (reapLimit : Option ℤ) (db : Db) : Call (TickReport × Db) := do
  ensure env.attested attestationRequired
  ensure reapLimit.isSome (tq422 "reap limit must not be null")
  if ¬env.tryLock "taskq:tick" then .ok (⟨true, none, none, none, none, none, none⟩, db)
  else
    let (reaped, db) := inBlock (reapExpired env reapLimit) db
    let (ttl, db) := inBlock (expireTtl env (some 200)) db
    let (cancelled, db) := inBlock (finalizeCancelStragglers env (some 50)) db
    let (advanced, db) := inBlock (advanceWorkflowCancellations env (some 100)) db
    let (dependencies, db) := inBlock (finalizeDepStragglers env (some 100)) db
    let (finalized, db) := inBlock (finalizeWorkflows env (some 100)) db
    .ok (⟨false, reaped, ttl, cancelled, advanced, dependencies, finalized⟩, db)

end Tick

section Retention

/-- The statuses that one retention step treats together. -/
inductive StatusGroup where
  | finished | failed
  deriving DecidableEq, Repr

def StatusGroup.covers (g : StatusGroup) (s : JobStatus) : Bool :=
  match g with
  | .finished => s = .succeeded || s = .cancelled
  | .failed => s = .failed

/-- The `LIMIT` of a retention step's candidate scan. -/
def StatusGroup.limit : StatusGroup → ℕ
  | .finished => 5000
  | .failed => 2000

def StatusGroup.retention (g : StatusGroup) (q : Queue) : ℤ :=
  match g with
  | .finished => q.retentionHours
  | .failed => q.failedRetentionHours

/-- The job is terminal in the group and past its queue's retention. -/
def expiredIn (env : Env) (g : StatusGroup) (db : Db) (job : JobRow) : Bool :=
  g.covers job.status && (db.queues.get? job.queue).any fun q =>
    job.finishedAt.any (· < env.now - hours (g.retention q))

/-- The horizon of the job's queue is a timestamp; a retention of many thousand years has none. -/
def horizonOk (env : Env) (g : StatusGroup) (db : Db) (job : JobRow) : Bool :=
  (db.queues.get? job.queue).all fun q => minTimestamp ≤ env.now - hours (g.retention q)

/-- The order of `finished_at`. SQL leaves the order of jobs that ended at one instant open; here their ids decide. -/
def finishedLe (a b : Uuid × Job) : Bool :=
  a.2.finishedAt.getD 0 < b.2.finishedAt.getD 0 ||
  (a.2.finishedAt.getD 0 = b.2.finishedAt.getD 0 && a.1 ≤ b.1)

/-- The oldest jobs of the group, of all queues. -/
def retentionCandidates (g : StatusGroup) (core : Core) : List (Uuid × Job) :=
  (core.jobs.selectBy (fun _ j => g.covers j.status) finishedLe).take g.limit

/-- The rows that the DELETE removes, in the order in which it reaches them. -/
def retentionVictims (env : Env) (g : StatusGroup) (db : Db) : List (Uuid × Job) :=
  ((retentionCandidates g db.toCore).filter fun r => expiredIn env g db r.2.toJobRow).insertionSort
    fun a b => env.deleteRank a.1 ≤ env.deleteRank b.1

/-- One deleted row: its ledger and its own edges cascade, an edge that depends on it stops the
statement, and the counters follow. -/
def deleteJob (env : Env) (victim : Uuid × Job) (db : Db) : Call Db := do
  let (id, job) := victim
  let db := { db with
    jobs := db.jobs.remove id
    attempts := db.attempts.keep fun _ a => a.jobId ≠ id
    deps := db.deps.filter fun e => e.1 ≠ id }
  ensure (∀ e ∈ db.deps, e.2 ≠ id) (foreignKeyViolation "job_deps_depends_on_fkey")
  let db := countDeleted env job.toJobRow db
  let counts ← deleteWorkflowMemberCounts db.workflows job.toJobRow db.memberCounts
  .ok { db with memberCounts := counts }

/-- One retention step of the janitor. -/
def retentionStep (env : Env) (g : StatusGroup) (db : Db) : Call (ℤ × Db) := do
  ensure ((retentionCandidates g db.toCore).all fun r => horizonOk env g db r.2.toJobRow)
    (.mk' .datetimeFieldOverflow "timestamp out of range")
  let victims := retentionVictims env g db
  let db ← forEach (deleteJob env) victims db
  .ok (victims.length, db)

/-- The instant at which an admission is due for deletion, when it is. -/
def admissionDue (env : Env) (core : Core) (id : Uuid) (a : Admission) : Option Time :=
  match a.state with
  | .admitted => a.receiptExpiresAt.bind fun expires =>
      if expires < env.now ∧ core.jobs.count (fun _ j => j.admissionId = some id) = 0
      then some a.updatedAt else none
  | .reserved => if a.reservationExpiresAt < env.now - days 1 then some a.reservationExpiresAt else none
  | .cancelled => if a.updatedAt < env.now - days 1 then some a.updatedAt else none

/-- The admission cleanup of the janitor: at most 500, those due longest first. -/
def pruneAdmissions (env : Env) (db : Db) : Call (ℤ × Db) := do
  let due := fun id a => (admissionDue env db.toCore id a).getD 0
  let candidates := (db.admissions.selectBy (fun id a => (admissionDue env db.toCore id a).isSome)
    fun a b => due a.1 a.2 < due b.1 b.2 || (due a.1 a.2 = due b.1 b.2 && a.1 ≤ b.1)).take 500
  let ids := candidates.map (·.1)
  ensure (db.jobs.count (fun _ j => j.admissionId.any ids.contains) = 0)
    (foreignKeyViolation "jobs_admission_id_fkey")
  .ok (ids.length, { db with admissions := db.admissions.keep fun id _ => ¬ids.contains id })

/-- Drop the first `budget` events that are older than 30 days. -/
def dropOldEvents (env : Env) : ℕ → List Event → List Event
  | 0, es => es
  | _, [] => []
  | budget+1, e :: es =>
    if e.createdAt < env.now - days 30 then dropOldEvents env budget es
    else e :: dropOldEvents env (budget + 1) es

def pruneEvents (env : Env) (db : Db) : Call (ℤ × Db) :=
  let kept := dropOldEvents env 20000 db.events
  .ok (db.events.length - kept.length, { db with events := kept })

/-- Occurrences without a job, 90 days old and behind their schedule's cursor. -/
def pruneOccurrences (env : Env) (db : Db) : Db :=
  { db with scheduling := { db.scheduling with
      occurrences := db.scheduling.occurrences.keep fun key o =>
        ¬(o.createdAt < env.now - days 90 ∧ o.jobId = none ∧
          (db.scheduling.schedules.get? key.1).any fun s => key.2 < s.nextFireAt) } }

/-- Decisions that are 90 days old, behind their schedule's cursor and without an occurrence. -/
def pruneDecisions (env : Env) (db : Db) : Db :=
  { db with scheduling := { db.scheduling with
      decisions := db.scheduling.decisions.keep fun id d =>
        ¬(d.createdAt < env.now - days 90 ∧
          ((db.scheduling.schedules.get? d.scheduleId).any fun s => d.cursorTo < s.nextFireAt) ∧
          db.scheduling.occurrences.count (fun _ o => o.decisionId = some id) = 0) } }

/-- The object that `janitor` returns; a step that ended in its handler has no entry. -/
structure JanitorReport where
  terminalDeleted : Option ℤ
  failedDeleted : Option ℤ
  admissionsPruned : Option ℤ
  eventsPruned : Option ℤ
  deriving DecidableEq, Repr

/-- `janitor`. -/
def janitor (env : Env) (db : Db) : Call (JanitorReport × Db) := do
  ensure env.attested attestationRequired
  let (terminal, db) := inBlock (retentionStep env .finished) db
  let (failed, db) := inBlock (retentionStep env .failed) db
  let (admissions, db) := inBlock (pruneAdmissions env) db
  let (events, db) := inBlock (pruneEvents env) db
  .ok (⟨terminal, failed, admissions, events⟩, pruneDecisions env (pruneOccurrences env db))

end Retention

end Taskq
