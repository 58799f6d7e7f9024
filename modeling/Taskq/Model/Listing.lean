import Taskq.Model.BulkAdmission
import Taskq.Model.Config

/-! The read model: pages of the jobs of a queue, of the workflows and of the members of a workflow. Its capabilities are
active from the migration on that brings them. -/
namespace Taskq
open Relational

section Rows

/-- `(a, …) < (b, …)`: the first pair that differs or lacks a value decides, and without a value nothing holds. -/
def rowLt : List (Option ℤ) → List (Option ℤ) → Bool
  | some a :: as, some b :: bs => if a = b then rowLt as bs else a < b
  | _, _ => false

/-- `ORDER BY` several columns; a missing value counts as larger than all others. -/
def columnsLe : List (Option ℤ) → List (Option ℤ) → Bool
  | [], _ => true
  | _ :: _, [] => false
  | none :: as, none :: bs => columnsLe as bs
  | none :: _, some _ :: _ => false
  | some _ :: _, none :: _ => true
  | some a :: as, some b :: bs => if a = b then columnsLe as bs else a < b

/-- `cardinality(v_items) > p_limit`: the items of the page, and the last of them when there are more. -/
def cutPage {α : Type} (limit : ℤ) (found : List α) : List α × Option α :=
  if limit < found.length then (found.take limit.toNat, (found.take limit.toNat).getLast?) else (found, none)

def pageLimitOk (limit : Option ℤ) : Bool := limit.any fun n => 1 ≤ n ∧ n ≤ 100

/-- A nullable time in a cursor. -/
def timeJson (env : Env) (t : Option Time) : Jsonb := .ofText? (t.map env.timeText)

end Rows

section Jobs

/-- The views of `list_jobs`. -/
inductive JobView where
  | ready | scheduled | blocked | running | cancelRequested | failed | finished
  deriving DecidableEq, Repr

namespace JobView

def ofText? : String → Option JobView
  | "ready" => some .ready
  | "scheduled" => some .scheduled
  | "blocked" => some .blocked
  | "running" => some .running
  | "cancel_requested" => some .cancelRequested
  | "failed" => some .failed
  | "finished" => some .finished
  | _ => none

/-- The branch that a view takes; a missing view passes the checks and takes the last. -/
def branch (view : Option String) : JobView := (view.bind ofText?).getD .finished

/-- `WHERE`, without the cursor. -/
def selects (env : Env) (queue : String) : JobView → JobRow → Bool
  | .ready, j => j.queue = queue && j.status = .queued && j.cancelRequestedAt.isNone && j.scheduledAt ≤ env.now
  | .scheduled, j => j.queue = queue && j.status = .queued && j.cancelRequestedAt.isNone && env.now < j.scheduledAt
  | .blocked, j => j.queue = queue && j.status = .blocked && j.cancelRequestedAt.isNone
  | .running, j => j.queue = queue && j.status = .running
  | .cancelRequested, j => j.queue = queue && j.cancelRequestedAt.isSome &&
      (j.status = .blocked || j.status = .queued || j.status = .running)
  | .failed, j => j.queue = queue && j.status = .failed
  | .finished, j => j.queue = queue && (j.status = .succeeded || j.status = .failed || j.status = .cancelled)

/-- The time that orders a view. -/
def time : JobView → JobRow → Option Time
  | .ready, j | .scheduled, j => some j.scheduledAt
  | .blocked, j => some j.createdAt
  | .running, j => j.startedAt
  | .cancelRequested, j => j.cancelRequestedAt
  | .failed, j | .finished, j => j.finishedAt

/-- Its name in a cursor. -/
def timeKey : JobView → String
  | .ready => "scheduled_at"
  | .scheduled | .blocked => "ordered_at"
  | .running => "started_at"
  | .cancelRequested => "cancel_requested_at"
  | .failed | .finished => "finished_at"

/-- The columns of `ORDER BY`; only the ready view puts the priority first. -/
def columns (v : JobView) (priority : Option ℤ) (time : Option Time) (id : Option Uuid) : List (Option ℤ) :=
  (if v = .ready then [priority] else []) ++ [time, id.map (↑)]

def descends : JobView → Bool
  | .ready | .scheduled | .blocked => false
  | .running | .cancelRequested | .failed | .finished => true

def columnsOf (v : JobView) (r : Uuid × Job) : List (Option ℤ) :=
  v.columns (some r.2.priority) (v.time r.2.toJobRow) (some r.1)

def le (v : JobView) (a b : Uuid × Job) : Bool :=
  if v.descends then columnsLe (v.columnsOf b) (v.columnsOf a) else columnsLe (v.columnsOf a) (v.columnsOf b)

end JobView

/-- The values of a cursor after their casts. -/
structure JobCursor where
  priority : Option ℤ
  time : Option Time
  id : Option Uuid

/-- The row is after the cursor. -/
def JobCursor.before (v : JobView) (c : JobCursor) (r : Uuid × Job) : Bool :=
  if v.descends then rowLt (v.columnsOf r) (v.columns c.priority c.time c.id)
  else rowLt (v.columns c.priority c.time c.id) (v.columnsOf r)

def castJobCursor (env : Env) (v : JobView) (c : Jsonb) : Call JobCursor := do
  let id ← castText env.parseUuid c "id"
  let priority ← if v = .ready then castSmallint env c "priority" else .ok none
  let time ← castText env.parseTime c v.timeKey
  .ok ⟨priority, time, id⟩
where
  castSmallint (env : Env) (c : Jsonb) (key : String) : Call (Option ℤ) := do
    match ← castText env.parseInt c key with
    | none => .ok none
    | some n => do
      let n ← int2 n
      .ok (some n)

def readJobCursor (env : Env) (queue : String) (view : Option String) (c : Jsonb) : Call JobCursor := do
  let v := JobView.branch view
  ensure (c.kind = .object ∧ c.fieldText? "queue" = some queue ∧ c.fieldText? "view" = view ∧ c.hasKey "id" ∧
    (view.isSome → (v = .ready → c.hasKey "priority") ∧ c.hasKey v.timeKey)) (tq422 "cursor does not match queue/view")
  (castJobCursor env v c).mapError fun _ => tq422 "invalid read-model cursor"

/-- `job_list_item`. -/
structure JobListItem where
  jobId : Uuid
  jobType : String
  status : JobStatus
  outcome : Option String
  priority : ℤ
  attemptCount : ℤ
  failureCount : ℤ
  maxAttempts : ℤ
  createdAt : Time
  scheduledAt : Time
  startedAt : Option Time
  finishedAt : Option Time
  updatedAt : Time
  deriving DecidableEq, Repr

def JobListItem.of (r : Uuid × Job) : JobListItem :=
  ⟨r.1, r.2.jobType, r.2.status, r.2.outcome, r.2.priority, r.2.attemptCount, r.2.failureCount, r.2.maxAttempts,
    r.2.createdAt, r.2.scheduledAt, r.2.startedAt, r.2.finishedAt, r.2.updatedAt⟩

structure JobPage where
  asOf : Time
  items : List JobListItem
  nextAfter : Option Jsonb

/-- The cursor that leads on from a row; the cancel request is read again from its job. -/
def jobCursor (env : Env) (queue : String) (view : Option String) (r : Uuid × Job) : Jsonb :=
  let v := JobView.branch view
  .build ([("queue", .str queue), ("view", .ofText? view)] ++
    (if v = .ready then [("priority", .ofInt r.2.priority)] else []) ++
    [(v.timeKey, timeJson env (v.time r.2.toJobRow)), ("id", .str r.1.text)])

def listJobs (env : Env) (queue view : Option String) (limit : Option ℤ) (cursor : Option Jsonb) (db : Db) :
    Call JobPage := do
  ensure (queue.any isQueueName ∧ view.all (fun v => (JobView.ofText? v).isSome) ∧ pageLimitOk limit)
    (tq422 "invalid read model page input")
  let queue := queue.getD ""
  let limit := limit.getD 0
  let v := JobView.branch view
  let after ← cursor.elim (.ok none) fun c => (readJobCursor env queue view c).map some
  ensure ((db.queues.get? queue).isSome) (.mk' .tq001 "queue not found")
  let found := (db.jobs.selectBy (fun id j => v.selects env queue j.toJobRow && after.all (·.before v (id, j))) v.le).take
    (limit.toNat + 1)
  let (rows, last) := cutPage limit found
  .ok ⟨env.now, rows.map .of, last.map (jobCursor env queue view)⟩

end Jobs

section Workflows

/-- `workflow_list_item`. -/
structure WorkflowListItem where
  workflowId : Uuid
  workflowKey : String
  kind : WorkflowKind
  status : WorkflowStatus
  sealed' : Bool
  cancelRequested : Bool
  declaredQueues : List String
  createdAt : Time
  updatedAt : Time
  finishedAt : Option Time
  deriving DecidableEq, Repr

def WorkflowListItem.of (r : Uuid × Workflow) : WorkflowListItem :=
  ⟨r.1, r.2.workflowKey, r.2.kind, r.2.status, r.2.sealedAt.isSome, r.2.cancelRequestedAt.isSome, r.2.declaredQueues,
    r.2.createdAt, r.2.updatedAt, r.2.finishedAt⟩

structure WorkflowListPage where
  asOf : Time
  items : List WorkflowListItem
  nextAfter : Option Jsonb

/-- The views of `list_workflows`; a missing view passes the checks and takes the last branch. -/
def runningView (view : Option String) : Bool := view = some "running"

def workflowTime (view : Option String) (r : Workflow) : Option Time :=
  if runningView view then some r.updatedAt else r.finishedAt

def workflowColumns (view : Option String) (r : Uuid × Workflow) : List (Option ℤ) :=
  [workflowTime view r.2, some (r.1 : ℤ)]

def workflowLe (view : Option String) (a b : Uuid × Workflow) : Bool :=
  columnsLe (workflowColumns view b) (workflowColumns view a)

def castWorkflowCursor (env : Env) (c : Jsonb) : Call (List (Option ℤ)) := do
  let time ← castText env.parseTime c "ordered_at"
  let id ← castText env.parseUuid c "id"
  .ok [time, id.map (↑)]

def readWorkflowCursor (env : Env) (view : Option String) (c : Jsonb) : Call (List (Option ℤ)) := do
  ensure (c.kind = .object ∧ c.fieldText? "view" = view ∧ c.hasKey "id" ∧ c.hasKey "ordered_at")
    (tq422 "invalid workflow list cursor")
  (castWorkflowCursor env c).mapError fun _ => tq422 "invalid workflow list cursor"

def workflowCursor (env : Env) (view : Option String) (r : Uuid × Workflow) : Jsonb :=
  .build [("view", .ofText? view), ("ordered_at", timeJson env (workflowTime view r.2)), ("id", .str r.1.text)]

def listWorkflows (env : Env) (view : Option String) (limit : Option ℤ) (cursor : Option Jsonb) (db : Db) :
    Call WorkflowListPage := do
  ensure (view.all (fun v => v = "running" ∨ v = "finished") ∧ pageLimitOk limit) (tq422 "invalid workflow list input")
  let limit := limit.getD 0
  let after ← cursor.elim (.ok none) fun c => (readWorkflowCursor env view c).map some
  let found := (db.workflows.selectBy (fun id r => decide (r.status = .running) = runningView view &&
    after.all fun c => rowLt (workflowColumns view (id, r)) c) (workflowLe view)).take (limit.toNat + 1)
  let (rows, last) := cutPage limit found
  .ok ⟨env.now, rows.map .of, last.map (workflowCursor env view)⟩

/-- `workflow_member_projection`. -/
structure WorkflowMember where
  jobId : Uuid
  queue : String
  jobType : String
  stepKey : Option String
  status : JobStatus
  outcome : Option String
  pendingDeps : ℤ
  attemptCount : ℤ
  failureCount : ℤ
  createdAt : Time
  scheduledAt : Time
  startedAt : Option Time
  finishedAt : Option Time
  updatedAt : Time
  deriving DecidableEq, Repr

def WorkflowMember.of (r : Uuid × Job) : WorkflowMember :=
  ⟨r.1, r.2.queue, r.2.jobType, r.2.stepKey, r.2.status, r.2.outcome, r.2.pendingDeps, r.2.attemptCount, r.2.failureCount,
    r.2.createdAt, r.2.scheduledAt, r.2.startedAt, r.2.finishedAt, r.2.updatedAt⟩

/-- `workflow_read_profile`. -/
structure WorkflowProfile where
  workflowId : Uuid
  kind : WorkflowKind
  status : WorkflowStatus
  sealed' : Bool
  cancelRequested : Bool
  declaredQueues : List String
  createdAt : Time
  updatedAt : Time
  finishedAt : Option Time
  memberLimit : Option ℤ
  admittedTotal : Option ℤ
  remainingCapacity : Option ℤ
  continuationPolicyHash : Option String
  deriving DecidableEq, Repr

def WorkflowProfile.of (w : Uuid) (r : Workflow) (counts : MemberCounts) : WorkflowProfile where
  workflowId := w
  kind := r.kind
  status := r.status
  sealed' := r.sealedAt.isSome
  cancelRequested := r.cancelRequestedAt.isSome
  declaredQueues := r.declaredQueues
  createdAt := r.createdAt
  updatedAt := r.updatedAt
  finishedAt := r.finishedAt
  memberLimit := r.memberLimit
  admittedTotal := counts.admittedTotal
  remainingCapacity := r.memberLimit.bind fun limit => counts.admittedTotal.map (limit - ·)
  continuationPolicyHash := r.continuationPolicyHash

structure WorkflowPage where
  asOf : Time
  profile : WorkflowProfile
  counts : MemberCounts
  items : List WorkflowMember
  nextAfter : Option Uuid

def getWorkflowPage (env : Env) (w : Option Uuid) (limit : Option ℤ) (after : Option Uuid) (db : Db) : Call WorkflowPage := do
  ensure (w.isSome ∧ pageLimitOk limit) (tq422 "invalid workflow page input")
  let w := w.getD 0
  let limit := limit.getD 0
  match db.workflows.get? w with
  | none => .error (.mk' .tq001 "taskq: no such workflow")
  | some r =>
    match db.memberCounts.get? w with
    | none => .error (.mk' .tq500 "workflow counter invariant missing")
    | some counts =>
      let found := (db.jobs.selectBy (fun id j => j.workflowId = some w && after.all (· < id)) idLe).take (limit.toNat + 1)
      let (rows, last) := cutPage limit found
      .ok ⟨env.now, .of w r counts, counts, rows.map .of, last.map (·.1)⟩

end Workflows

end Taskq
