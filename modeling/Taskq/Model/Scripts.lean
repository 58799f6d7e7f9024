import Taskq.Library.Script
import Taskq.Model.Schedule
import Taskq.Model.Workflow

/-! The verbs that set up a name, statement by statement: what each does to the row of the name between two statements
of other transactions. -/
namespace Taskq
open Relational

/-- `ensure_queue`. -/
def ensureQueueScript (env : Env) (name : Option String) (profile : Option Jsonb) :
    Script SqlError Queue (Upsert × Queue) :=
  let profile := profile.getD (.obj [])
  .attempt (do
    ensure (name.any isQueueName) (tq422 "queue name must match ^[a-z0-9_]{1,57}$")
    ensure (profile.kind = .object) (tq422 "profile must be a json object")
    checkProfileKeys profile.keys) fun _ =>
  .lock fun
  | none =>
    .attempt (applyProfile env profile (.fresh env)) fun q =>
    .insert q (.read fun row => .answer (.created, row.getD q))
  | some old =>
    .attempt (applyProfile env profile old) fun q =>
    if q = old then .read fun row => .answer (.unchanged, row.getD old)
    else
      let q := { q with profileVersion := old.profileVersion + 1, updatedAt := env.now }
      .update (fun _ => .ok q) (.read fun row => .answer (.updated, row.getD q))

/-- `set_flow_limit`. -/
def setFlowLimitScript (key : Option String) (rate burst : Option ℤ) : Script SqlError FlowLimit Upsert :=
  .attempt (do
    ensure (key.any isLimitKey) (tq422 "flow key must match [a-z0-9_.:-]{1,120}")
    ensure (rate.any (0 < ·)) (tq422 "rate_per_minute must be positive")
    ensure (burst.all (0 < ·)) (tq422 "burst must be positive")) fun _ =>
  let limit : FlowLimit := ⟨rate.getD 0, burst⟩
  .lock fun
  | none => .insert limit (.answer .created)
  | some old => if old = limit then .answer .unchanged else .update (fun _ => .ok limit) (.answer .updated)

/-- `create_workflow` with the id that it drew; the other tables are as in `db`. -/
def createWorkflowScript (env : Env) (id : Uuid) (key kind : Option String) (params : Option Jsonb)
    (queues : Option (List String)) (actor : Option String) (db : Db) :
    Script SqlError (Uuid × Workflow) WorkflowResult :=
  .attempt (do
    ensure (keyOk key) (tq422 "workflow_key must be 1..255 UTF-8 bytes")
    ensure ((kind.bind WorkflowKind.ofText?).isSome) (tq422 "workflow kind must be dag or batch")
    ensure (paramsOk params) (tq422 "workflow params must be an object of at most 64KB")
    ensure (actor.any (· ≠ "")) (tq422 "workflow actor is required")
    let declared ← declareQueues queues db
    storeWorkflow (newWorkflow env (key.getD "") ((kind.bind WorkflowKind.ofText?).getD .dag)
      (params.getD .null) (actor.getD "") declared 10000 none)) fun w =>
  .offer (id, w) fun
  | true => .answer ⟨.created, id, .running⟩
  | false => .read fun
    | none => .raise workflowMismatch
    | some (existing, workflow) =>
      .attempt (ensure (workflow.kind = w.kind ∧ workflow.params.same w.params ∧
        workflow.declaredQueues = w.declaredQueues ∧ workflow.continuationPolicyHash.isNone ∧
        workflow.memberLimit.all (· = 10000)) workflowMismatch) fun _ =>
      .answer ⟨.existed, existing, workflow.status⟩

/-- A change of a stored schedule. -/
def changeSchedule (change : ScheduleRow → ScheduleRow) (row : Uuid × Schedule) : Call (Uuid × Schedule) := do
  let s ← storeSchedule (change row.2.toScheduleRow)
  .ok (row.1, s)

/-- The columns that the last `UPDATE` of `put_schedule` derives when nothing but the state was asked for. -/
def deriveColumns (env : Env) (s : ScheduleRow) : ScheduleRow :=
  { s with
    manifestKey := if s.manifestKey = "legacy" then s.name else s.manifestKey
    displayName := if s.displayName = "legacy" then s.name else s.displayName
    definitionHash := definitionHash env s }

/-- `_put_schedule_unattested` without an expected version, with the id that an insert would draw, and the last `UPDATE`
of its wrapper. -/
def putScheduleUnattestedScript (env : Env) (id : Uuid) (name : Option String) (definition : Jsonb)
    (actor : Option String) (db : Db) : Script SqlError (Uuid × Schedule) WriteResult :=
  let derive answer := .update (changeSchedule (deriveColumns env)) (.answer answer)
  .attempt (do
    ensure (name.any fun n => isScheduleName n ∧ n ≠ janitorName) (tq422 "invalid schedule name")
    ensure (actorOk actor = true) (tq422 "schedule actor is required")
    parseDefinition env definition db) fun d =>
  .lock fun
  | none =>
    let r := newSchedule env (name.getD "") d (actor.getD "")
    .attempt (d.checkPolicy >>= fun _ => storeSchedule (scheduleAdmissionOwner r db)) fun s =>
    .insert (id, s) (derive (r.result .created id))
  | some (id, s) =>
    .attempt (do
      ensure (s.target.fieldText? "kind" = some "job") (tq422 "reserved maintenance schedule")
      ensure (d.sameAs s.toScheduleRow ∧ (s.state = .paused) = d.paused)
        (scheduleConflict "schedule identity mismatch" "schedule_mismatch" s.version)) fun _ =>
    derive (s.result .unchanged id)

/-- `put_schedule` without an expected version. Its first statement clears the pause audit, unless the schedule is to
be paused. -/
def putScheduleScript (env : Env) (id : Uuid) (name : Option String) (definition : Jsonb) (actor : Option String)
    (db : Db) : Script SqlError (Uuid × Schedule) WriteResult :=
  .attempt (do
    ensure env.attested attestationRequired
    ensure (reservedHeader definition = false) (tq422 "taskq_schedule header is reserved")
    wantsPaused env definition) fun paused =>
  let put := putScheduleUnattestedScript env id name definition actor db
  if paused then put else .update (changeSchedule fun s => { s with pausedAudit := none }) put

end Taskq
