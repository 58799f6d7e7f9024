import Taskq.Model.Continuation

/-! Admission of new jobs by producers: single, bulk, with a typed verdict, and in two phases. -/
namespace Taskq
open Relational

section Owner

/-- `_check_admission_owner`. -/
def checkAdmissionOwner (env : Env) (queue : String) (db : Db) : Call Unit :=
  match (db.queues.get? queue).bind (·.admissionOwnerOid) with
  | none => .ok ()
  | some owner => do
    ensure (env.roleExists owner) ownerMissing
    ensure (env.memberOf owner) ownerDenied

end Owner

section Enqueue

structure EnqueueArgs where
  queue : String
  jobType : Option String
  payload : Option Jsonb
  priority : Option ℤ
  scheduledAt : Option Time
  idempotencyKey : Option String
  concurrencyKey : Option String
  affinityKey : Option String
  maxAttempts : Option ℤ
  leaseSeconds : Option ℤ
  backoffMode : Option String
  backoffBase : Option ℤ
  backoffCap : Option ℤ
  dependsOn : List (Option Uuid)
  workflowId : Option Uuid
  stepKey : Option String
  parentJobId : Option Uuid
  headers : Option Jsonb
  ttlSeconds : Option ℤ
  flowKey : Option String

def BackoffMode.ofText? (s : String) : Option BackoffMode :=
  if s = "fixed" then some .fixed else if s = "exponential" then some .exponential else none

/-- An optional text is neither empty nor longer than `n` characters. -/
def textOk (n : ℕ) (s : Option String) : Bool := s.all fun t => t ≠ "" && t.length ≤ n

/-- The job type is present and at most 120 characters long. -/
def jobTypeOk (jobType : Option String) : Bool := jobType.any fun t => t ≠ "" && t.length ≤ 120

/-- The namespace of idempotency keys that only continuations use. -/
def engineReserved (key : Option String) : Bool := key.any (hasPrefix "chain:")

def reservedNamespace : SqlError :=
  .because .tq422 "idempotency_key uses an engine-reserved namespace"
    "reserved_idempotency_namespace"

def stepMismatch : SqlError :=
  .because .tq409 "workflow step intent mismatch" "workflow_step_mismatch"

def workflowSealed : SqlError :=
  .because .tq409 "workflow membership is sealed" "workflow_sealed"

def undeclaredQueue : SqlError :=
  .because .tq422 "queue is outside workflow declaration" "continuation_queue_undeclared"

/-- The checks of `enqueue` on its arguments alone. -/
def checkEnqueue (a : EnqueueArgs) : Call Unit := do
  ensure (a.ttlSeconds.all fun n => 1 ≤ n ∧ n ≤ 31536000) (tq422 "ttl_seconds must be 1..31536000")
  ensure (textOk 120 a.flowKey) (tq422 "flow_key must be 1..120 chars")
  ensure (jobTypeOk a.jobType) (tq422 "job_type is required (<= 120 chars)")
  ensure (a.priority.all fun n => 0 ≤ n ∧ n ≤ 1000) (tq422 "priority must be 0..1000")
  ensure (a.leaseSeconds.all fun n => 15 ≤ n ∧ n ≤ 86400) (tq422 "lease_seconds must be 15..86400")
  ensure (a.maxAttempts.all fun n => 1 ≤ n ∧ n ≤ 100) (tq422 "max_attempts must be 1..100")
  ensure (a.backoffMode.all fun m => (BackoffMode.ofText? m).isSome)
    (tq422 "backoff_mode must be fixed or exponential")
  ensure (a.backoffBase.all fun n => 1 ≤ n ∧ n ≤ 86400) (tq422 "backoff_base must be 1..86400")
  ensure (a.backoffCap.all fun n => 1 ≤ n) (tq422 "backoff_cap must be positive")
  ensure (textOk 255 a.idempotencyKey) (tq422 "idempotency_key must be 1..255 chars")
  ensure (¬engineReserved a.idempotencyKey) reservedNamespace
  ensure (textOk 120 a.concurrencyKey) (tq422 "concurrency_key must be 1..120 chars")
  ensure (textOk 120 a.affinityKey) (tq422 "affinity_key must be 1..120 chars")
  ensure (a.payload.any fun p => p.kind = .object ∧ octetLength p.text ≤ 65536)
    (tq422 "payload must be an object of at most 64KB")
  ensure (a.headers.all fun h => h.kind = .object ∧ octetLength h.text ≤ 8192)
    (tq422 "headers must be an object of at most 8KB")
  ensure (a.workflowId.isNone = a.stepKey.isNone)
    (tq422 "workflow_id and step_key must be supplied together")
  ensure (a.workflowId.isSome ∨ a.dependsOn = []) (tq422 "dependencies require a workflow")
  ensure (a.stepKey.all isStepKey) (tq422 "invalid workflow step_key")
  ensure (a.dependsOn.length ≤ 100 ∧ a.dependsOn.all (·.isSome) ∧ a.dependsOn.Nodup)
    (tq422 "depends_on must contain at most 100 distinct non-null ids")

def intJson (n : Option ℤ) : Jsonb := (n.map Jsonb.ofInt).getD .null

def uuidJson (u : Uuid) : Jsonb := .str (Uuid.text u)

/-- The hash of a workflow step's intent, over the arguments as they were given. -/
def intentHash (env : Env) (a : EnqueueArgs) (deps : List Uuid) : String :=
  let base : Jsonb := .build [
    ("queue", .str a.queue), ("job_type", .ofText? a.jobType), ("payload", a.payload.getD .null),
    ("priority", intJson a.priority), ("scheduled_at", .ofText? (a.scheduledAt.map env.timeText)),
    ("idempotency_key", .ofText? a.idempotencyKey), ("concurrency_key", .ofText? a.concurrencyKey),
    ("affinity_key", .ofText? a.affinityKey), ("max_attempts", intJson a.maxAttempts),
    ("lease_seconds", intJson a.leaseSeconds), ("backoff_mode", .ofText? a.backoffMode),
    ("backoff_base", intJson a.backoffBase), ("backoff_cap", intJson a.backoffCap),
    ("depends_on", .arr (deps.map uuidJson)),
    ("parent_job_id", (a.parentJobId.map uuidJson).getD .null), ("headers", a.headers.getD .null)]
  let limits : Jsonb := if a.ttlSeconds.isSome ∨ a.flowKey.isSome then
    .build [("ttl_seconds", intJson a.ttlSeconds), ("flow_key", .ofText? a.flowKey)] else .obj []
  env.sha256 (base.merge limits).text

/-- The member that has a step of a workflow. -/
def stepHolder (core : Core) (w : Uuid) (step : Option String) : Option (Uuid × Job) :=
  (core.jobs.select fun _ j => j.workflowId = some w ∧ j.stepKey = step).head?

/-- A replayed step must carry the same intent and the workflow's policy. -/
def sameStep (workflow : Workflow) (hash : String) (member : JobRow) : Bool :=
  member.workflowIntentHash = some hash &&
  member.continuationPolicyHash = workflow.continuationPolicyHash

/-- The parents among the dependencies that have not succeeded yet, checked one by one. -/
def liveParents (w : Uuid) : List (Uuid × Job) → Call (List Uuid)
  | [] => .ok []
  | (id, parent) :: parents => do
    ensure (parent.workflowId = some w) (.mk' .tq001 "taskq: dependency is outside workflow")
    ensure (parent.status ≠ .failed ∧ parent.status ≠ .cancelled)
      (.because .tq409 "dependency is terminal" "dependency_terminal")
    let live ← liveParents w parents
    .ok (if parent.status ≠ .succeeded then id :: live else live)

/-- The dependencies that hold the new member back, in id order. -/
def liveDependencies (w : Uuid) (deps : List Uuid) (db : Db) : Call (List Uuid) := do
  let parents := deps.filterMap fun id => (db.jobs.get? id).map fun j => (id, j)
  let live ← liveParents w parents
  ensure (parents.length = deps.length) (.mk' .tq001 "taskq: no such dependency")
  .ok live

/-- What `enqueue` finds out about the workflow of a new member. -/
inductive Membership where
  | existing (id : Uuid)
  | ordinary
  | member (w : Uuid) (workflow : Workflow) (hash : String) (live : List Uuid)

def Membership.live : Membership → List Uuid
  | .member _ _ _ live => live
  | _ => []

/-- The workflow branch of `enqueue` before it inserts. -/
def resolveMembership (env : Env) (a : EnqueueArgs) (db : Db) : Call Membership :=
  match a.workflowId with
  | none => .ok .ordinary
  | some w => do
    checkAdmissionOwner env a.queue db
    match db.workflows.get? w with
    | none => .error (.mk' .tq001 "taskq: no such workflow")
    | some workflow => do
      ensure (a.queue ∈ workflow.declaredQueues) undeclaredQueue
      let deps := (a.dependsOn.filterMap id).insertionSort (· ≤ ·)
      let hash := intentHash env a deps
      match stepHolder db.toCore w a.stepKey with
      | some (id, member) => do
        ensure (sameStep workflow hash member.toJobRow) stepMismatch
        .ok (.existing id)
      | none => do
        ensure (workflow.sealedAt.isNone) workflowSealed
        let live ← liveDependencies w deps db
        .ok (.member w workflow hash live)

/-- The row that `enqueue` inserts. -/
def EnqueueArgs.row (env : Env) (a : EnqueueArgs) (q : Queue) (m : Membership) : JobRow :=
  let scheduled := a.scheduledAt.getD env.now
  { JobRow.defaults env with
    queue := a.queue, jobType := a.jobType.getD ""
    status := if m.live = [] then .queued else .blocked
    priority := a.priority.getD q.defaultPriority, payload := a.payload.getD .null
    headers := a.headers, idempotencyKey := a.idempotencyKey, concurrencyKey := a.concurrencyKey
    affinityKey := a.affinityKey, workflowId := a.workflowId, stepKey := a.stepKey
    workflowIntentHash := match m with
      | .member _ _ hash _ => some hash
      | _ => none
    continuationPolicyHash := match m with
      | .member _ workflow _ _ => workflow.continuationPolicyHash
      | _ => none
    parentJobId := a.parentJobId, pendingDeps := m.live.length, scheduledAt := scheduled
    leaseSeconds := a.leaseSeconds.getD q.defaultLeaseSeconds
    maxAttempts := a.maxAttempts.getD q.defaultMaxAttempts
    backoffMode := (a.backoffMode.bind BackoffMode.ofText?).getD q.defaultBackoffMode
    backoffBaseSeconds := a.backoffBase.getD q.defaultBackoffBase
    backoffCapSeconds := a.backoffCap.getD q.defaultBackoffCap
    expiresAt := (a.ttlSeconds <|> q.defaultTtlSeconds).map fun ttl => scheduled + seconds ttl
    flowKey := a.flowKey }

/-- Take the place of a new member. -/
def reservePlace (m : Membership) (db : Db) : Call Db :=
  match m with
  | .member w workflow _ _ => reserveWorkflowMembers w 1 workflow.continuationPolicyHash db
  | _ => .ok db

/-- One try in its block: reserve a member place and insert. A unique violation undoes the block. -/
def tryInsert (env : Env) (id : Uuid) (r : JobRow) (m : Membership) (db : Db) : Call (Option Db) :=
  let attempt : Call (Option Db) := do
    let db ← reservePlace m db
    insertJob env id r db
  match attempt with
  | .ok inserted => .ok inserted
  | .error e => if e.state = .uniqueViolation then .ok none else .error e

/-- The job that an unsuccessful try converges on. -/
def convergeOn (a : EnqueueArgs) (m : Membership) (db : Db) : Call (Option Uuid) :=
  match m with
  | .member w workflow hash _ =>
    match stepHolder db.toCore w a.stepKey with
    | some (id, member) => do
      ensure (sameStep workflow hash member.toJobRow) stepMismatch
      .ok (some id)
    | none =>
      match a.idempotencyKey.bind (keyHolder db.toCore a.queue) with
      | none => .ok none
      | some (id, holder) => do
        ensure (holder.workflowId = some w ∧ holder.stepKey = a.stepKey ∧
          sameStep workflow hash holder.toJobRow) stepMismatch
        .ok (some id)
  | _ => .ok ((a.idempotencyKey.bind (keyHolder db.toCore a.queue)).map (·.1))

/-- The insert loop of `enqueue`: the id of the job, and whether this call created it. -/
def insertOrConverge (env : Env) (a : EnqueueArgs) (r : JobRow) (m : Membership) :
    ℕ → Db → Call ((Uuid × Bool) × Db)
  | 0, _ => .error (.mk' .tq500 "taskq: idempotency insert did not converge")
  | tries+1, db => do
    let (id, db) := newUuid db
    match ← tryInsert env id r m db with
    | some inserted => .ok ((id, true), inserted)
    | none =>
      match ← convergeOn a m db with
      | some existing => .ok ((existing, false), db)
      | none => insertOrConverge env a r m tries db

/-- The jobs that count against `max_depth`. -/
def queueDepth (db : Db) (queue : String) : ℤ :=
  ((db.queueCounters.get? queue).map fun c => c.blocked + c.queued).getD 0

/-- Whether an insert notifies; in the idle mode only the first waiting job does. -/
def notifies (db : Db) (queue : String) (q : Queue) : Bool :=
  q.notifyEnabled && (q.notifyMode = .always || queueDepth db queue ≤ 1)

/-- What follows a successful insert: the edges, the event and the notification. -/
def finishEnqueue (env : Env) (id : Uuid) (r : JobRow) (live : List Uuid) (q : Queue) (db : Db) :
    Call Db := do
  let db := { db with deps := db.deps ∪ (live.map fun parent => (id, parent)).toFinset }
  let db ← emitEvent env id none "enqueued" "system" none
    (some (.build [("status", .str r.status.text),
      ("scheduled_at", .str (env.timeText r.scheduledAt))])) db
  .ok (if live = [] ∧ r.scheduledAt ≤ env.now ∧ notifies db r.queue q then notifyQueue r.queue db
    else db)

/-- `enqueue`: the id of the job, and whether this call created it. -/
def enqueue (env : Env) (a : EnqueueArgs) (db : Db) : Call ((Uuid × Bool) × Db) := do
  checkEnqueue a
  match db.queues.get? a.queue with
  | none => .error (.mk' .tq001 ("taskq: unknown queue " ++ a.queue))
  | some q => do
    ensure (a.backoffBase.getD q.defaultBackoffBase ≤ a.backoffCap.getD q.defaultBackoffCap)
      (tq422 "backoff_cap is below backoff_base")
    let m ← resolveMembership env a db
    match m with
    | .existing id => .ok ((id, false), db)
    | _ => do
      ensure (q.maxDepth.all fun n => queueDepth db a.queue < n)
        (.mk' .tq429 "queue is at max_depth")
      let r := a.row env q m
      let ((id, created), db) ← insertOrConverge env a r m 3 db
      if created then do
        let db ← finishEnqueue env id r m.live q db
        .ok ((id, true), db)
      else .ok ((id, false), db)

inductive Verdict where
  | accepted | existed | rejectedDepth
  deriving DecidableEq, Repr

/-- The seconds after which to try a full queue again: what the settled rate of the stats snapshot leaves to
wait, within a minute, else the setting of the queue. -/
def retryHint (env : Env) (queue : String) (db : Db) : ℤ :=
  match env.settledPerSecond queue with
  | some rate => if 0 < rate then min 60 (max 1 ⌈env.readyJobs queue / rate⌉) else fallback
  | none => fallback
where
  fallback := ((db.queues.get? queue).map (·.backpressureRetrySeconds)).getD 5

/-- `try_enqueue`; a full queue answers with the seconds after which to try again. -/
def tryEnqueue (env : Env) (a : EnqueueArgs) (db : Db) :
    Call ((Verdict × Option Uuid × Option ℤ) × Db) := do
  checkAdmissionOwner env a.queue db
  match a.idempotencyKey.bind (keyHolder db.toCore a.queue) with
  | some (id, _) => .ok ((.existed, some id, none), db)
  | none =>
    match enqueue env a db with
    | .ok ((id, created), db) =>
      .ok ((if created then .accepted else .existed, some id, none), db)
    | .error e =>
      if e.state = .tq429 then
        .ok ((.rejectedDepth, none, some (retryHint env a.queue db)), db)
      else .error e

end Enqueue

end Taskq
