import Taskq.Model.Database

/-! Writing rows of `jobs`: storage checks, the admission-owner guard, the partial unique index on
live idempotency keys, and the counters that the triggers maintain. -/
namespace Taskq
open Relational

def checkViolation (constraint : String) : SqlError := .mk' .checkViolation constraint

def uniqueViolation (index : String) : SqlError := .mk' .uniqueViolation index

def foreignKeyViolation (constraint : String) : SqlError := .mk' .foreignKeyViolation constraint

/-- A row as it is stored: its `smallint` columns in range and its CHECK constraints satisfied. -/
def storeJob (r : JobRow) : Call Job := do
  let _ ← int2 r.priority
  let _ ← int2 r.pendingDeps
  let _ ← int2 r.attemptCount
  let _ ← int2 r.failureCount
  let _ ← int2 r.releaseCount
  let _ ← int2 r.expiryStreak
  let _ ← int2 r.maxAttempts
  if h : r.checksOk = true then .ok ⟨r, h⟩ else .error (checkViolation "jobs")

theorem storeJob_toRow {r : JobRow} {j : Job} (h : storeJob r = .ok j) : j.toJobRow = r := by
  simp only [storeJob, seq_eq_ok] at h
  obtain ⟨_, -, _, -, _, -, _, -, _, -, _, -, _, -, stored⟩ := h
  split at stored
  · cases stored
    rfl
  · cases stored

/-- Another live job of the queue has the key, so the row may not enter `jobs_idem_uq`. -/
def idemClash (db : Core) (id : Uuid) (r : JobRow) : Bool :=
  r.idempotencyKey.isSome && r.status.active &&
    (db.jobs.select fun other j => other ≠ id ∧ j.status.active ∧ j.queue = r.queue ∧
      j.idempotencyKey = r.idempotencyKey).length ≠ 0

section AdmissionOwner

def ownerDenied : SqlError :=
  .because .tq425 "queue admission owner does not permit caller" "queue_admission_owner"

def ownerMissing : SqlError :=
  .because .tq425 "queue admission owner role is unavailable" "queue_admission_owner_role_missing"

def chainPrefix (parent : Uuid) : String := "chain:" ++ Uuid.text parent ++ ":"

def continuationPrefix (parent : Uuid) : String := "c:" ++ Uuid.text parent ++ ":"

/-- `key LIKE prefix || '%'` with a step key after the prefix. -/
def isPrefixedStep (p key : String) : Bool :=
  hasPrefix p key && isStepKey (String.ofList (key.toList.drop p.length))

/-- The occurrence of a schedule that targets this queue and job type, written by this very
transaction and not linked to a job yet. -/
def occurrenceProvenance (env : Env) (db : Db) (owner : ℕ) (r : JobRow) : Bool :=
  match r.headers.bind (·.field? "taskq_schedule") with
  | none => false
  | some header =>
    header.kind = .object &&
    (db.scheduling.occurrences.select fun key o =>
      header.fieldText? "occurrence_id" = some (Uuid.text o.occurrenceId) ∧
      o.outcome = .fired ∧ o.jobId = none ∧ o.xmin = env.xid ∧
      header.fieldText? "schedule_id" = some (Uuid.text key.1) ∧
      (db.scheduling.schedules.get? key.1).any fun s =>
        s.admissionOwnerOid = some owner && s.target.fieldText? "kind" = some "job" &&
        s.target.fieldText? "queue" = some r.queue &&
        s.target.fieldText? "job_type" = some r.jobType).length ≠ 0

/-- The continuation of a succeeded parent whose queue has the same owner. -/
def continuationProvenance (db : Db) (owner : ℕ) (r : JobRow) : Bool :=
  match r.parentJobId, r.idempotencyKey with
  | some parent, some key =>
    isPrefixedStep (chainPrefix parent) key &&
    match db.jobs.get? parent with
    | none => false
    | some p =>
      p.status = .succeeded &&
      (db.queues.get? p.queue).any (·.admissionOwnerOid = some owner) &&
      ((r.workflowId.isNone && r.continuationPolicyHash.isNone && r.stepKey.isNone) ||
        (r.workflowId = p.workflowId && r.continuationPolicyHash = p.continuationPolicyHash &&
          r.workflowId.isSome && r.continuationPolicyHash.isSome &&
          r.stepKey.any (isPrefixedStep (continuationPrefix parent))))
  | _, _ => false

/-- Trigger `jobs_admission_owner_guard` on INSERT. -/
def admissionOwnerGuardInsert (env : Env) (r : JobRow) (db : Db) : Call Unit :=
  match (db.queues.get? r.queue).bind (·.admissionOwnerOid) with
  | none => .ok ()
  | some owner => do
    ensure (env.roleExists owner) ownerMissing
    ensure (env.memberOf owner ∨ (env.housekeeper ∧ occurrenceProvenance env db owner r) ∨
      continuationProvenance db owner r) ownerDenied

/-- Trigger `jobs_admission_owner_guard` on UPDATE OF status. -/
def admissionOwnerGuardUpdate (old new : JobRow) (db : Db) : Call Unit :=
  ensure (¬(old.status.terminal ∧ ¬new.status.terminal ∧
      (db.queues.get? old.queue).any (·.admissionOwnerOid.isSome)))
    (.because .tq409 "terminal jobs on bound queues cannot be redriven" "bound_queue_redrive")

end AdmissionOwner

section Counters

/-- `(status = 'x')::integer`. -/
def one (b : Bool) : ℤ := if b then 1 else 0

def MemberCounts.minus (c : MemberCounts) (s : JobStatus) : MemberCounts :=
  { c with
    blocked := c.blocked - one (s = .blocked), queued := c.queued - one (s = .queued),
    running := c.running - one (s = .running), succeeded := c.succeeded - one (s = .succeeded),
    failed := c.failed - one (s = .failed), cancelled := c.cancelled - one (s = .cancelled) }

def MemberCounts.plus (c : MemberCounts) (s : JobStatus) : MemberCounts :=
  { c with
    blocked := c.blocked + one (s = .blocked), queued := c.queued + one (s = .queued),
    running := c.running + one (s = .running), succeeded := c.succeeded + one (s = .succeeded),
    failed := c.failed + one (s = .failed), cancelled := c.cancelled + one (s = .cancelled) }

/-- The CHECK constraints of `workflow_member_counts`. -/
def MemberCounts.checksOk (c : MemberCounts) : Bool :=
  0 ≤ c.blocked && 0 ≤ c.queued && 0 ≤ c.running && 0 ≤ c.succeeded && 0 ≤ c.failed &&
  0 ≤ c.cancelled && c.admittedTotal.all (0 ≤ ·)

/-- A write of `workflow_member_counts`. -/
def putCounts (w : Uuid) (c : MemberCounts) (counts : Table Uuid MemberCounts) :
    Call (Table Uuid MemberCounts) := do
  ensure c.checksOk (checkViolation "workflow_member_counts")
  .ok (counts.put w c)

def counterMissing : SqlError := .mk' .tq500 "workflow counter invariant missing"

/-- `update_workflow_member_counts` for a row that leaves a status; the counts of a workflow that is
gone may be gone as well. -/
def countLeave (workflows : Table Uuid Workflow) (w : Uuid) (s : JobStatus)
    (counts : Table Uuid MemberCounts) : Call (Table Uuid MemberCounts) :=
  match counts.get? w with
  | some c => putCounts w (c.minus s) counts
  | none => do
    ensure ((workflows.get? w).isNone) counterMissing
    .ok counts

/-- `update_workflow_member_counts` for a row that enters a status. -/
def countEnter (w : Uuid) (s : JobStatus) (counts : Table Uuid MemberCounts) :
    Call (Table Uuid MemberCounts) :=
  match counts.get? w with
  | some c => putCounts w (c.plus s) counts
  | none => .error counterMissing

/-- Trigger `jobs_workflow_member_counts_trg` on UPDATE; no function changes `workflow_id`. -/
def updateWorkflowMemberCounts (workflows : Table Uuid Workflow) (old new : JobRow)
    (counts : Table Uuid MemberCounts) : Call (Table Uuid MemberCounts) :=
  match old.workflowId with
  | none => .ok counts
  | some w =>
    if new.status = old.status then .ok counts
    else do
      let counts ← countLeave workflows w old.status counts
      countEnter w new.status counts

/-- Trigger `jobs_workflow_member_counts_trg` on INSERT. -/
def insertWorkflowMemberCounts (new : JobRow) (counts : Table Uuid MemberCounts) :
    Call (Table Uuid MemberCounts) :=
  match new.workflowId with
  | none => .ok counts
  | some w => countEnter w new.status counts

/-- Trigger `jobs_workflow_member_counts_trg` on DELETE. -/
def deleteWorkflowMemberCounts (workflows : Table Uuid Workflow) (old : JobRow)
    (counts : Table Uuid MemberCounts) : Call (Table Uuid MemberCounts) :=
  match old.workflowId with
  | none => .ok counts
  | some w => countLeave workflows w old.status counts

def QueueCounters.zero (now : Time) : QueueCounters := ⟨0, 0, 0, 0, 0, 0, 0, 0, now⟩

def Db.putCounters (db : Db) (queue : String) (c : QueueCounters) : Db :=
  { db with queueCounters := db.queueCounters.put queue c }

@[simp] theorem Db.putCounters_toCore (db : Db) (queue : String) (c : QueueCounters) :
    (db.putCounters queue c).toCore = db.toCore := rfl

/-- Trigger `jobs_queue_counters_trg` on INSERT. -/
def countInserted (env : Env) (r : JobRow) (db : Db) : Db :=
  let c := (db.queueCounters.get? r.queue).getD (.zero env.now)
  db.putCounters r.queue { c with
    blocked := c.blocked + one (r.status = .blocked), queued := c.queued + one (r.status = .queued),
    running := c.running + one (r.status = .running), enqueuedTotal := c.enqueuedTotal + 1,
    updatedAt := env.now }

/-- Trigger `jobs_queue_counters_trg` on UPDATE OF status. -/
def countUpdated (env : Env) (old new : JobRow) (db : Db) : Db :=
  if new.status = old.status then db else
    let c := (db.queueCounters.get? new.queue).getD (.zero env.now)
    db.putCounters new.queue { c with
      blocked := max 0 (c.blocked - one (old.status = .blocked)) + one (new.status = .blocked)
      queued := max 0 (c.queued - one (old.status = .queued)) + one (new.status = .queued)
      running := max 0 (c.running - one (old.status = .running)) + one (new.status = .running)
      requeuedTotal := c.requeuedTotal + one (old.status = .running && new.status = .queued)
      succeededTotal := c.succeededTotal + one (new.status = .succeeded)
      failedTotal := c.failedTotal + one (new.status = .failed)
      cancelledTotal := c.cancelledTotal + one (new.status = .cancelled)
      updatedAt := env.now }

/-- Trigger `jobs_queue_counters_trg` on DELETE. -/
def countDeleted (env : Env) (old : JobRow) (db : Db) : Db :=
  match db.queueCounters.get? old.queue with
  | none => db
  | some c => db.putCounters old.queue { c with
      blocked := max 0 (c.blocked - one (old.status = .blocked))
      queued := max 0 (c.queued - one (old.status = .queued))
      running := max 0 (c.running - one (old.status = .running))
      updatedAt := env.now }

end Counters

section Rows

def Db.putJob (db : Db) (id : Uuid) (job : Job) : Db := { db with jobs := db.jobs.put id job }

/-- Replace a stored row, with every trigger on `jobs` that an UPDATE fires. A row that is already
in the partial unique index keeps its key, so only a row that enters the index is checked. -/
def writeJob (env : Env) (id : Uuid) (old : Job) (new : JobRow) (db : Db) : Call Db := do
  admissionOwnerGuardUpdate old.toJobRow new db
  let job ← storeJob new
  ensure (old.status.active ∨ ¬idemClash db.toCore id new) (uniqueViolation "jobs_idem_uq")
  let db := db.putJob id job
  let settled : Bool := (new.status = .failed ∨ new.status = .succeeded) ∧ new.status ≠ old.status
  let db ← (if settled then breakerOnSettle env id new db else .ok db)
  let db := countUpdated env old.toJobRow new db
  let counts ← updateWorkflowMemberCounts db.workflows old.toJobRow new db.memberCounts
  .ok { db with memberCounts := counts }

/-- `UPDATE taskq.jobs SET … WHERE id = …`. -/
def updateJob (env : Env) (id : Uuid) (f : JobRow → JobRow) (db : Db) : Call Db :=
  match db.jobs.get? id with
  | none => .ok db
  | some old => writeJob env id old (f old.toJobRow) db

/-- Another member of the workflow has the step key. -/
def stepTaken (core : Core) (r : JobRow) : Bool :=
  r.workflowId.isSome &&
    (core.jobs.select fun _ j => j.workflowId = r.workflowId ∧ j.stepKey = r.stepKey).length ≠ 0

/-- `INSERT INTO taskq.jobs … ON CONFLICT (queue, idempotency_key) … DO NOTHING`; no state when a
live job of the queue holds the key. -/
def insertJob (env : Env) (id : Uuid) (r : JobRow) (db : Db) : Call (Option Db) := do
  admissionOwnerGuardInsert env r db
  let job ← storeJob r
  if idemClash db.toCore id r then .ok none
  else do
    ensure ((db.jobs.get? id).isNone) (uniqueViolation "jobs_pkey")
    ensure (¬stepTaken db.toCore r) (uniqueViolation "jobs_workflow_step_uq")
    ensure ((db.queues.get? r.queue).isSome) (foreignKeyViolation "jobs_queue_fkey")
    ensure (r.workflowId.all fun w => (db.workflows.get? w).isSome)
      (foreignKeyViolation "jobs_workflow_id_fkey")
    let db := countInserted env r (db.putJob id job)
    let counts ← insertWorkflowMemberCounts r db.memberCounts
    .ok (some { db with memberCounts := counts })

/-- `INSERT INTO taskq.job_attempts`, under `uq_job_attempts_running`. -/
def insertAttempt (id : Uuid) (a : Attempt) (db : Db) : Call Db := do
  ensure ((db.attempts.get? id).isNone) (uniqueViolation "job_attempts_pkey")
  ensure (¬(a.status = .running ∧ db.attempts.count
    (fun _ b => b.jobId = a.jobId ∧ b.status = .running) ≠ 0)) (uniqueViolation "uq_job_attempts_running")
  .ok { db with attempts := db.attempts.put id a }

/-- `UPDATE taskq.job_attempts SET … WHERE id = …`; no function writes the status running. -/
def updateAttempt (id : Uuid) (f : Attempt → Attempt) (db : Db) : Db :=
  match db.attempts.get? id with
  | none => db
  | some a => { db with attempts := db.attempts.put id (f a) }

/-- `UPDATE taskq.job_attempts SET … WHERE id = … AND status = 'running'`. -/
def closeAttempt (id : Uuid) (f : Attempt → Attempt) (db : Db) : Db :=
  match db.attempts.get? id with
  | none => db
  | some a => if a.status = .running then { db with attempts := db.attempts.put id (f a) } else db

/-- `DELETE FROM taskq.job_deps WHERE job_id = …`. -/
def dropOwnEdges (id : Uuid) (db : Db) : Db := { db with deps := db.deps.filter fun e => e.1 ≠ id }

end Rows

end Taskq
