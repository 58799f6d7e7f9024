import Taskq.Model.Housekeeping

/-! Workflows: creation, sealing, cancellation, and the passes that advance and finalize them. -/
namespace Taskq
open Relational

inductive WorkflowOutcome where
  | created | existed | sealed | alreadySealed | cancelRequested | alreadyRequested | alreadyTerminal
  deriving DecidableEq, Repr

/-- `taskq.workflow_result`. -/
structure WorkflowResult where
  outcome : WorkflowOutcome
  workflowId : Uuid
  status : WorkflowStatus
  deriving DecidableEq, Repr

def WorkflowKind.ofText? (s : String) : Option WorkflowKind :=
  if s = "dag" then some .dag else if s = "batch" then some .batch else none

/-- A row of `workflows` as it is stored. -/
def storeWorkflow (r : WorkflowRow) : Call Workflow :=
  if h : r.checksOk = true then .ok ⟨r, h⟩ else .error (checkViolation "workflows")

/-- `UPDATE taskq.workflows SET … WHERE id = …`. -/
def writeWorkflow (w : Uuid) (r : WorkflowRow) (db : Db) : Call Db := do
  let workflow ← storeWorkflow r
  .ok { db with workflows := db.workflows.put w workflow }

/-- `INSERT INTO taskq.workflows` with the trigger that starts its member counts. -/
def insertWorkflow (w : Uuid) (r : WorkflowRow) (db : Db) : Call Db := do
  ensure ((db.workflows.get? w).isNone) (.mk' .uniqueViolation "workflows_pkey")
  let db ← writeWorkflow w r db
  .ok { db with memberCounts :=
          db.memberCounts.put w ⟨0, 0, 0, 0, 0, 0, r.memberLimit.map fun _ => 0⟩ }

/-- The workflow with a key. -/
def workflowByKey (core : Core) (key : String) : Option (Uuid × Workflow) :=
  (core.workflows.select fun _ w => w.workflowKey = key).head?

section Create

def noSuchWorkflow : SqlError := .mk' .tq001 "taskq: no such workflow"

def workflowMismatch : SqlError :=
  .because .tq409 "workflow idempotency identity mismatch" "workflow_mismatch"

def paramsOk (params : Option Jsonb) : Bool :=
  params.any fun p => p.kind = .object && octetLength p.text ≤ 65536

def keyOk (key : Option String) : Bool :=
  key.any fun k => 1 ≤ octetLength k && octetLength k ≤ 255

/-- The declared queues in name order, once they are 1 to 32 distinct existing queues. -/
def declareQueues (queues : Option (List String)) (db : Db) : Call (List String) := do
  let names := queues.getD []
  ensure (1 ≤ names.length ∧ names.length ≤ 32 ∧ names.Nodup)
    (tq422 "declared_queues must contain 1..32 distinct queues")
  ensure (names.all fun n => (db.queues.get? n).isSome)
    (.mk' .tq001 "workflow names an unknown queue")
  .ok (names.insertionSort fun a b => a ≤ b)

/-- Insert the workflow, or return the one with its key when it is the same. -/
def insertOrFindWorkflow (r : WorkflowRow) (same : WorkflowRow → Bool) (db : Db) :
    Call (WorkflowResult × Db) :=
  let (id, db) := newUuid db
  match workflowByKey db.toCore r.workflowKey with
  | none => do
    let db ← insertWorkflow id r db
    .ok (⟨.created, id, .running⟩, db)
  | some (existing, workflow) => do
    ensure (workflow.kind = r.kind ∧ workflow.params.same r.params ∧
      workflow.declaredQueues = r.declaredQueues ∧ same workflow.toWorkflowRow) workflowMismatch
    .ok (⟨.existed, existing, workflow.status⟩, db)

def newWorkflow (env : Env) (key : String) (kind : WorkflowKind) (params : Jsonb)
    (actor : String) (queues : List String) (limit : ℤ) (policy : Option String) : WorkflowRow where
  workflowKey := key
  kind := kind
  status := .running
  params := params
  createdBy := actor
  declaredQueues := queues
  sealedAt := none
  sealedBy := none
  cancelRequestedAt := none
  cancelRequestedBy := none
  cancelReason := none
  memberLimit := some limit
  continuationPolicyHash := policy
  createdAt := env.now
  updatedAt := env.now
  finishedAt := none

/-- `create_workflow` without a policy; its lifetime limit is 10000 members. -/
def createWorkflow (env : Env) (key kind : Option String) (params : Option Jsonb)
    (queues : Option (List String)) (actor : Option String) (db : Db) :
    Call (WorkflowResult × Db) := do
  ensure (keyOk key) (tq422 "workflow_key must be 1..255 UTF-8 bytes")
  ensure ((kind.bind WorkflowKind.ofText?).isSome) (tq422 "workflow kind must be dag or batch")
  ensure (paramsOk params) (tq422 "workflow params must be an object of at most 64KB")
  ensure (actor.any (· ≠ "")) (tq422 "workflow actor is required")
  let declared ← declareQueues queues db
  insertOrFindWorkflow
    (newWorkflow env (key.getD "") ((kind.bind WorkflowKind.ofText?).getD .dag)
      (params.getD .null) (actor.getD "") declared 10000 none)
    (fun w => w.continuationPolicyHash.isNone && w.memberLimit.all (· = 10000)) db

/-- `create_workflow` with a member limit and a continuation policy. -/
def createContinuationWorkflow (env : Env) (key kind : Option String) (params : Option Jsonb)
    (queues : Option (List String)) (actor : Option String) (limit : Option ℤ)
    (policy : Option String) (db : Db) : Call (WorkflowResult × Db) := do
  ensure (keyOk key ∧ (kind.bind WorkflowKind.ofText?).isSome ∧ paramsOk params ∧
    actor.any (· ≠ "") ∧ limit.any (fun n => 1 ≤ n ∧ n ≤ 1000000) ∧ policy.all isSha256)
    (tq422 "invalid continuation workflow input")
  let declared ← declareQueues queues db
  insertOrFindWorkflow
    (newWorkflow env (key.getD "") ((kind.bind WorkflowKind.ofText?).getD .dag)
      (params.getD .null) (actor.getD "") declared (limit.getD 1) policy)
    (fun w => w.memberLimit = limit && w.continuationPolicyHash = policy) db

end Create

section Cancellation

/-- A member that the cancellation pass still has to settle or to ask. -/
def cancellable (job : JobRow) : Bool :=
  unstarted job || (job.status = .running && job.cancelRequestedAt.isNone)

/-- Cancel one member of a cancelled workflow: a running one is asked to stop. -/
def cancelMember (env : Env) (id : Uuid) (db : Db) : Call Db :=
  match (db.jobs.get? id).filter fun j => cancellable j.toJobRow with
  | none => .ok db
  | some job =>
    if job.status = .running then do
      let db ← writeJob env id job
        { job.toJobRow with
            cancelRequestedAt := job.cancelRequestedAt <|> some env.now
            cancelReason := job.cancelReason <|> some "workflow cancelled"
            updatedAt := env.now } db
      .ok (insertEvent env id job.currentAttemptId "cancel_requested" "system" "workflow cancelled"
        (some (.build [("reason", .str "workflow_cancelled")])) db)
    else do
      let db ← writeJob env id job
        { job.toJobRow with
            status := .cancelled, outcome := some "canceled"
            cancelRequestedAt := job.cancelRequestedAt <|> some env.now
            cancelReason := job.cancelReason <|> some "workflow cancelled"
            error := job.error <|> some "workflow cancelled"
            finishedAt := some env.now, updatedAt := env.now } db
      .ok (insertEvent env id none "cancelled" "system" "workflow cancelled"
        (some (.build [("reason", .str "workflow_cancelled")])) (dropOwnEdges id db))

/-- Members of a workflow that the pass reaches, in id order. -/
def cancellableMembers (env : Env) (w : Uuid) (core : Core) : List Uuid :=
  (core.jobs.selectBy (fun id j => j.workflowId = some w ∧ cancellable j.toJobRow ∧ ¬env.locked id)
    idLe).map (·.1)

/-- Workflow after workflow, until the limit is used up. -/
def advanceWorkflows (env : Env) : List Uuid → ℕ → Db → Call (ℕ × Db)
  | [], _, db => .ok (0, db)
  | w :: ws, left, db => do
    let members := (cancellableMembers env w db.toCore).take left
    let db ← forEach (cancelMember env) members db
    if left ≤ members.length then .ok (members.length, db)
    else do
      let (n, db) ← advanceWorkflows env ws (left - members.length) db
      .ok (members.length + n, db)

def cancelOrder (a b : Uuid × Workflow) : Bool :=
  a.2.cancelRequestedAt.getD 0 < b.2.cancelRequestedAt.getD 0 ||
  (a.2.cancelRequestedAt.getD 0 = b.2.cancelRequestedAt.getD 0 && a.1 ≤ b.1)

/-- `advance_workflow_cancellations`. -/
def advanceWorkflowCancellations (env : Env) (limit : Option ℤ) (db : Db) : Call (ℤ × Db) := do
  ensure (limit.any fun n => 1 ≤ n ∧ n ≤ 1000) limitError
  let bound := (limit.getD 0).toNat
  let ws := ((db.workflows.selectBy (fun _ w => w.cancelRequestedAt.isSome ∧ w.status = .running)
    cancelOrder).take bound).map (·.1)
  let (n, db) ← advanceWorkflows env ws bound db
  .ok (n, db)

/-- Members that may still change. -/
def MemberCounts.unfinished (c : MemberCounts) : ℤ := c.blocked + c.queued + c.running

/-- The status of a workflow that ends without a cancel request. -/
def MemberCounts.verdict (c : MemberCounts) : WorkflowStatus :=
  if 0 < c.failed then .failed else if 0 < c.cancelled then .cancelled else .succeeded

/-- `cancel_workflow`. -/
def cancelWorkflow (env : Env) (w : Uuid) (actor reason : Option String) (db : Db) :
    Call (WorkflowResult × Db) := do
  ensure (actor.any (· ≠ "")) (tq422 "workflow actor is required")
  ensure (reason.all (octetLength · ≤ 2048)) (tq422 "workflow cancel reason exceeds 2KB")
  match db.workflows.get? w with
  | none => .error noSuchWorkflow
  | some workflow =>
    if workflow.status ≠ .running then .ok (⟨.alreadyTerminal, w, workflow.status⟩, db)
    else if workflow.cancelRequestedAt.isSome then .ok (⟨.alreadyRequested, w, workflow.status⟩, db)
    else do
      let requested : WorkflowRow :=
        { workflow.toWorkflowRow with
            sealedAt := workflow.sealedAt <|> some env.now, sealedBy := workflow.sealedBy <|> actor
            cancelRequestedAt := some env.now, cancelRequestedBy := actor
            cancelReason := storedText reason, updatedAt := env.now }
      let db ← writeWorkflow w requested db
      let (_, db) ← advanceWorkflowCancellations env (some 100) db
      match db.memberCounts.get? w with
      | none => .error counterMissing
      | some counts =>
        if counts.unfinished = 0 then do
          let db ← writeWorkflow w { requested with
            status := .cancelled, finishedAt := some env.now, updatedAt := env.now } db
          .ok (⟨.cancelRequested, w, .cancelled⟩, db)
        else .ok (⟨.cancelRequested, w, .running⟩, db)

end Cancellation

section Finish

/-- `seal_workflow`. -/
def sealWorkflow (env : Env) (w : Uuid) (actor : Option String) (db : Db) :
    Call (WorkflowResult × Db) :=
  match db.workflows.get? w with
  | none => .error noSuchWorkflow
  | some workflow =>
    if workflow.sealedAt.isSome then .ok (⟨.alreadySealed, w, workflow.status⟩, db)
    else do
      let sealed : WorkflowRow :=
        { workflow.toWorkflowRow with
            sealedAt := some env.now, sealedBy := actor, updatedAt := env.now }
      let db ← writeWorkflow w sealed db
      match db.memberCounts.get? w with
      | none => .error counterMissing
      | some counts =>
        if counts.unfinished = 0 then do
          let db ← writeWorkflow w { sealed with
            status := counts.verdict, finishedAt := some env.now, updatedAt := env.now } db
          .ok (⟨.sealed, w, counts.verdict⟩, db)
        else .ok (⟨.sealed, w, workflow.status⟩, db)

/-- One workflow of the finalize pass; an unfinished one moves to the end of the frontier. -/
def finalizeWorkflow (env : Env) (w : Uuid) (workflow : Workflow) (db : Db) : Call (Bool × Db) :=
  match db.memberCounts.get? w with
  | none => .error counterMissing
  | some counts =>
    if 0 < counts.unfinished then do
      let db ← writeWorkflow w { workflow.toWorkflowRow with updatedAt := env.now } db
      .ok (false, db)
    else do
      let db ← writeWorkflow w { workflow.toWorkflowRow with
        status := if workflow.cancelRequestedAt.isSome then .cancelled else counts.verdict
        finishedAt := some env.now, updatedAt := env.now } db
      .ok (true, db)

def finalizeAll (env : Env) : List (Uuid × Workflow) → Db → Call (ℤ × Db)
  | [], db => .ok (0, db)
  | (w, workflow) :: rest, db => do
    let (done, db) ← finalizeWorkflow env w workflow db
    let (n, db) ← finalizeAll env rest db
    .ok (if done then n + 1 else n, db)

/-- Sealed running workflows, the least recently updated first. -/
def finalizable (env : Env) (core : Core) : List (Uuid × Workflow) :=
  core.workflows.selectBy (fun w r => r.sealedAt.isSome ∧ r.status = .running ∧ ¬env.locked w)
    fun a b => a.2.updatedAt < b.2.updatedAt || (a.2.updatedAt = b.2.updatedAt && a.1 ≤ b.1)

/-- `finalize_workflows`. -/
def finalizeWorkflows (env : Env) (limit : Option ℤ) (db : Db) : Call (ℤ × Db) := do
  ensure (limit.any fun n => 1 ≤ n ∧ n ≤ 1000) limitError
  finalizeAll env ((finalizable env db.toCore).take (limit.getD 0).toNat) db

end Finish

end Taskq
