import Taskq.Model.Dependents

/-! Continuations: reserving workflow membership and inserting the followups of a settlement. -/
namespace Taskq
open Relational

/-- The column defaults of a job inserted now. -/
def JobRow.defaults (env : Env) : JobRow where
  queue := ""
  jobType := ""
  status := .queued
  priority := 100
  payload := .obj []
  headers := none
  idempotencyKey := none
  concurrencyKey := none
  affinityKey := none
  flowKey := none
  workflowId := none
  stepKey := none
  workflowIntentHash := none
  continuationPolicyHash := none
  parentJobId := none
  admissionId := none
  pendingDeps := 0
  scheduledAt := env.now
  expiresAt := none
  leaseSeconds := 300
  leaseExpiresAt := none
  workerId := none
  currentAttemptId := none
  attemptCount := 0
  failureCount := 0
  releaseCount := 0
  expiryStreak := 0
  maxAttempts := 5
  backoffMode := .exponential
  backoffBaseSeconds := 30
  backoffCapSeconds := 3600
  cancelRequestedAt := none
  cancelReason := none
  progress := none
  result := none
  error := none
  outcome := none
  finishedByAttemptId := none
  createdAt := env.now
  updatedAt := env.now
  startedAt := none
  finishedAt := none

/-- `_reserve_workflow_members`: take `count` places of the workflow's lifetime member limit. -/
def reserveWorkflowMembers (w : Uuid) (count : ℤ) (policy : Option String) (db : Db) : Call Db := do
  ensure (1 ≤ count ∧ count ≤ 1000000) (tq422 "invalid workflow member reservation")
  match db.workflows.get? w with
  | none => .error (.mk' .tq500 "workflow reservation identity is missing")
  | some workflow => do
    ensure (workflow.continuationPolicyHash = policy)
      (.because .tq409 "workflow continuation policy mismatch" "continuation_policy_mismatch")
    let admitted := (db.memberCounts.get? w).bind (·.admittedTotal)
    match workflow.memberLimit, db.memberCounts.get? w, admitted with
    | none, some _, none => .ok db
    | none, _, _ => .error (.mk' .tq500 "legacy workflow counter invariant is invalid")
    | some limit, some counts, some total =>
      if total + count ≤ limit then do
        let counts ← putCounts w { counts with admittedTotal := some (total + count) } db.memberCounts
        .ok { db with memberCounts := counts }
      else .error (.because .tq409 "workflow member lifetime limit exceeded"
        "workflow_member_limit_exceeded")
    | some _, _, _ => .error (.mk' .tq500 "workflow lifetime counter invariant is missing")

def followupError (index : ℤ) (problem : String) : SqlError :=
  tq422 ("followup spec " ++ toString index ++ problem)

/-- The keys that a followup spec may have. -/
def followupKeys : List String :=
  ["step", "job_type", "queue", "payload", "headers", "priority", "max_attempts", "lease_seconds",
   "scheduled_at"]

def memberKey : String := "workflow_member"

/-- `spec ? 'workflow_member'` with any value but `true`. -/
def badMemberFlag (spec : Jsonb) : Bool :=
  spec.hasKey memberKey && spec.field? memberKey ≠ some (.bool true)

/-- An optional integer field: a JSON number without a fraction, in the range of the cast. -/
def intField (spec : Jsonb) (key : String) (cast : ℤ → Call ℤ) (e : SqlError) : Call (Option ℤ) :=
  match spec.field? key with
  | none => .ok none
  | some (.num n) =>
    if n.scale = 0 then
      match cast n.unscaled with
      | .ok i => .ok (some i)
      | .error _ => .error e
    else .error e
  | some _ => .error e

/-- An optional timestamp field: a JSON string that the cast accepts. -/
def timeField (env : Env) (spec : Jsonb) (key : String) (e : SqlError) : Call (Option Time) :=
  match spec.field? key with
  | none => .ok none
  | some (.str s) =>
    match env.parseTime s with
    | some t => .ok (some t)
    | none => .error e
  | some _ => .error e

/-- A followup spec after validation. -/
structure Followup where
  step : String
  jobType : String
  queue : String
  payload : Jsonb
  headers : Jsonb
  priority : Option ℤ
  maxAttempts : Option ℤ
  leaseSeconds : Option ℤ
  scheduledAt : Option Time
  member : Bool

/-- The checks of `_enqueue_followup` on the fields of a spec. -/
def parseFollowup (env : Env) (parentQueue : String) (spec : Jsonb) (index : ℤ) : Call Followup := do
  let step := (spec.fieldText? "step").getD ""
  ensure (isStepKey step) (followupError index " has invalid step")
  let jobType := (spec.fieldText? "job_type").getD ""
  ensure (jobType ≠ "" ∧ jobType.length ≤ 120) (followupError index " requires job_type <= 120 chars")
  let queue := (spec.fieldText? "queue").getD parentQueue
  ensure (queue ≠ "") (followupError index " has no queue")
  let payload := (spec.field? "payload").getD (.obj [])
  let headers := (spec.field? "headers").getD (.obj [])
  ensure (payload.kind = .object ∧ octetLength payload.text ≤ 65536 ∧
    headers.kind = .object ∧ octetLength headers.text ≤ 8192)
    (followupError index " has invalid bounded JSON")
  let scalar := followupError index " has an invalid scalar field"
  let priority ← intField spec "priority" int2 scalar
  let maxAttempts ← intField spec "max_attempts" int2 scalar
  let leaseSeconds ← intField spec "lease_seconds" int4 scalar
  let scheduledAt ← timeField env spec "scheduled_at" scalar
  ensure (priority.all (fun n => 0 ≤ n ∧ n ≤ 1000) ∧ maxAttempts.all (fun n => 1 ≤ n ∧ n ≤ 100) ∧
    leaseSeconds.all (fun n => 15 ≤ n ∧ n ≤ 86400))
    (followupError index " has an out-of-range scalar field")
  .ok ⟨step, jobType, queue, payload, headers, priority, maxAttempts, leaseSeconds, scheduledAt,
    spec.hasKey memberKey⟩

/-- The columns in which a followup differs from the column defaults. -/
def Followup.row (env : Env) (f : Followup) (q : Queue) (parentId : Uuid) (parent : JobRow)
    (intentHash : Option String) : JobRow :=
  { JobRow.defaults env with
    queue := f.queue, jobType := f.jobType, status := .queued
    priority := f.priority.getD q.defaultPriority, payload := f.payload, headers := some f.headers
    idempotencyKey := some (chainPrefix parentId ++ f.step), parentJobId := some parentId
    scheduledAt := f.scheduledAt.getD env.now
    leaseSeconds := f.leaseSeconds.getD q.defaultLeaseSeconds
    maxAttempts := f.maxAttempts.getD q.defaultMaxAttempts, backoffMode := q.defaultBackoffMode
    backoffBaseSeconds := q.defaultBackoffBase, backoffCapSeconds := q.defaultBackoffCap
    workflowId := if f.member then parent.workflowId else none
    stepKey := if f.member then some (continuationPrefix parentId ++ f.step) else none
    workflowIntentHash := intentHash
    continuationPolicyHash := if f.member then parent.continuationPolicyHash else none
    flowKey := if f.member then parent.flowKey else none }

/-- The hash under which a member followup is recorded. -/
def Followup.intentHash (env : Env) (f : Followup) (q : Queue) (parentId : Uuid)
    (parent : JobRow) : String :=
  env.sha256 (Jsonb.text (.build [
    ("queue", .str f.queue), ("job_type", .str f.jobType), ("payload", f.payload),
    ("headers", f.headers), ("priority", .ofInt (f.priority.getD q.defaultPriority)),
    ("scheduled_at", .ofText? (f.scheduledAt.map env.timeText)),
    ("max_attempts", .ofInt (f.maxAttempts.getD q.defaultMaxAttempts)),
    ("lease_seconds", .ofInt (f.leaseSeconds.getD q.defaultLeaseSeconds)),
    ("parent_job_id", .str (Uuid.text parentId)), ("flow_key", .ofText? parent.flowKey)]))

/-- The checks on a member followup's parent and queue. -/
def checkMemberFollowup (f : Followup) (parent : JobRow) (db : Db) : Call Unit :=
  match parent.workflowId, parent.continuationPolicyHash with
  | some w, some policy =>
    match db.workflows.get? w with
    | none => .error (.mk' .tq500 "continuation policy identity is inconsistent")
    | some workflow => do
      ensure (workflow.continuationPolicyHash = some policy)
        (.mk' .tq500 "continuation policy identity is inconsistent")
      ensure (f.queue ∈ workflow.declaredQueues)
        (.because .tq422 "continuation queue is not declared by the workflow"
          "continuation_queue_undeclared")
  | _, _ => .error (.because .tq422 "continuation parent is not a policy workflow member"
      "continuation_parent_not_member")

/-- The live job that holds an idempotency key of a queue, newest first. -/
def keyHolder (core : Core) (queue key : String) : Option (Uuid × Job) :=
  (core.jobs.selectBy (fun _ j => j.queue = queue ∧ j.idempotencyKey = some key ∧ j.status.active)
    (fun a b => b.2.createdAt ≤ a.2.createdAt)).head?

/-- The holder of a followup's key agrees with the followup in every compared column. -/
def sameFollowup (f : Followup) (row : JobRow) (holder : JobRow) : Bool :=
  holder.parentJobId = row.parentJobId && holder.jobType = row.jobType &&
  holder.payload.same row.payload &&
  (match holder.headers, row.headers with
    | some a, some b => a.same b
    | none, none => true
    | _, _ => false) &&
  holder.priority = row.priority && holder.maxAttempts = row.maxAttempts &&
  holder.leaseSeconds = row.leaseSeconds && holder.workflowId = row.workflowId &&
  holder.stepKey = row.stepKey && holder.workflowIntentHash = row.workflowIntentHash &&
  holder.continuationPolicyHash = row.continuationPolicyHash && holder.flowKey = row.flowKey &&
  (f.scheduledAt.isNone || holder.scheduledAt = row.scheduledAt)

/-- Insert the followup, or converge on the live holder of its key; each round is one try. -/
def insertFollowup (env : Env) (f : Followup) (q : Queue) (row : JobRow) :
    ℕ → Db → Call ((Uuid × Bool) × Db)
  | 0, _ => .error (.mk' .tq500 "followup idempotency insert did not converge")
  | tries+1, db => do
    let (id, db) := newUuid db
    match ← insertJob env id row db with
    | some inserted =>
      let db ← emitEvent env id none "enqueued" "system" none
        (some (.build [("status", .str "queued"), ("scheduled_at", .str (env.timeText row.scheduledAt)),
          ("flow_key", .ofText? row.flowKey)])) inserted
      .ok ((id, true),
        if row.scheduledAt ≤ env.now ∧ q.notifyEnabled then notifyQueue row.queue db else db)
    | none =>
      match keyHolder db.toCore row.queue (row.idempotencyKey.getD "") with
      | some (holder, existing) => do
        ensure (sameFollowup f row existing.toJobRow)
          (.mk' .tq500 "followup idempotency key has an inconsistent holder")
        .ok ((holder, false), db)
      | none => insertFollowup env f q row tries db

/-- `_enqueue_followup`. -/
def enqueueFollowup (env : Env) (parentId : Uuid) (parentQueue : String) (spec : Jsonb) (index : ℤ)
    (db : Db) : Call ((Uuid × Bool) × Db) := do
  ensure (1 ≤ index ∧ index ≤ 20) (tq422 "followup index must be 1..20")
  ensure (spec.kind = .object) (followupError index " must be an object")
  ensure (spec.keys.all fun k => followupKeys.contains k || k = memberKey)
    (followupError index " has an unknown field")
  ensure (¬badMemberFlag spec) (tq422 "workflow_member may only be true when present")
  match db.jobs.get? parentId with
  | none => .error (.mk' .tq500 "continuation parent is inconsistent")
  | some parent => do
    ensure (parent.queue = parentQueue) (.mk' .tq500 "continuation parent is inconsistent")
    let f ← parseFollowup env parentQueue spec index
    match db.queues.get? f.queue with
    | none => .error (followupError index " names unknown queue")
    | some q =>
      if f.member then do
        checkMemberFollowup f parent.toJobRow db
        let hash := f.intentHash env q parentId parent.toJobRow
        insertFollowup env f q (f.row env q parentId parent.toJobRow (some hash)) 3 db
      else insertFollowup env f q (f.row env q parentId parent.toJobRow none) 3 db

end Taskq
