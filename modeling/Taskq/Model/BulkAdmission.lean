import Taskq.Model.Admission

/-! Bulk admission: up to 1000 specs, validated first, then inserted as one set. -/
namespace Taskq
open Relational

section Specs

def castText {α : Type} (cast : String → Option α) (spec : Jsonb) (key : String) : Call (Option α) :=
  match spec.fieldText? key with
  | none => .ok none
  | some s =>
    match cast s with
    | some a => .ok (some a)
    | none => .error (.mk' .invalidTextRepresentation ("invalid input syntax: " ++ s))

/-- `(spec->>key)::integer`. -/
def castInt (env : Env) (spec : Jsonb) (key : String) : Call (Option ℤ) := do
  match ← castText env.parseInt spec key with
  | none => .ok none
  | some n => do
    let n ← int4 n
    .ok (some n)

/-- `(spec->>key)::integer` with a range check that lets NULL pass. -/
def boundedInt (env : Env) (spec : Jsonb) (key : String) (low high : ℤ) (message : String) :
    Call (Option ℤ) := do
  let n ← castInt env spec key
  ensure (n.all fun n => low ≤ n ∧ n ≤ high) (tq422 message)
  .ok n

/-- A text field that, when the key is present, has 1 to `n` characters. -/
def boundedText (spec : Jsonb) (key : String) (n : ℕ) : Call (Option String) := do
  ensure (¬spec.hasKey key ∨ (spec.fieldText? key).any fun t => t ≠ "" ∧ t.length ≤ n)
    (tq422 (key ++ " must be 1.." ++ toString n ++ " chars"))
  .ok (spec.fieldText? key)

/-- The keys that a spec of a bulk call may have. -/
def bulkKeys : List String :=
  ["job_type", "payload", "headers", "priority", "scheduled_at", "idempotency_key",
   "concurrency_key", "affinity_key", "max_attempts", "lease_seconds", "backoff_mode",
   "backoff_base", "backoff_cap", "parent_job_id", "workflow_id", "step_key", "ttl_seconds",
   "flow_key"]

/-- The keys of a spec in order: the first one that is not allowed is reported. -/
def checkBulkKeys : List String → Call Unit
  | [] => .ok ()
  | key :: keys => do
    ensure (key ≠ "depends_on") (tq422 "dependencies are not available in bulk admission")
    ensure (bulkKeys.contains key) (tq422 ("unknown field \"" ++ key ++ "\""))
    checkBulkKeys keys

/-- The checks on one spec, in the order in which the function makes them. -/
def parseSpec (env : Env) (queue : String) (q : Queue) (spec : Jsonb) : Call EnqueueArgs := do
  checkBulkKeys spec.keys
  let jobType := spec.fieldText? "job_type"
  ensure (jobTypeOk jobType) (tq422 "job_type is required (<= 120 chars)")
  let payload := (spec.field? "payload").getD (.obj [])
  ensure (payload.kind = .object) (tq422 "payload must be a json object")
  ensure (octetLength payload.text ≤ 65536) (tq422 "payload exceeds the 64KB limit")
  let headers := spec.field? "headers"
  ensure (headers.all (·.kind = .object)) (tq422 "headers must be a json object")
  ensure (withinBytes 8192 headers) (tq422 "headers exceed the 8KB limit")
  let priority ← boundedInt env spec "priority" 0 1000 "priority must be 0..1000"
  let leaseSeconds ← boundedInt env spec "lease_seconds" 15 86400 "lease_seconds must be 15..86400"
  let maxAttempts ← boundedInt env spec "max_attempts" 1 100 "max_attempts must be 1..100"
  let backoffMode := spec.fieldText? "backoff_mode"
  ensure (backoffMode.all fun m => (BackoffMode.ofText? m).isSome)
    (tq422 "backoff_mode must be fixed|exponential")
  let backoffBase ← boundedInt env spec "backoff_base" 1 86400 "backoff_base must be 1..86400"
  let backoffCap ← castInt env spec "backoff_cap"
  ensure (backoffBase.getD q.defaultBackoffBase ≤ backoffCap.getD q.defaultBackoffCap)
    (tq422 "backoff_cap below backoff_base")
  let idempotencyKey ← boundedText spec "idempotency_key" 255
  ensure (¬engineReserved idempotencyKey)
    (tq422 "idempotency_key uses an engine-reserved namespace")
  let concurrencyKey ← boundedText spec "concurrency_key" 120
  let affinityKey ← boundedText spec "affinity_key" 120
  let ttlSeconds ← boundedInt env spec "ttl_seconds" 1 31536000 "ttl_seconds must be 1..31536000"
  let flowKey ← boundedText spec "flow_key" 120
  let stepKey := spec.fieldText? "step_key"
  ensure ((spec.fieldText? "workflow_id").isNone = stepKey.isNone)
    (tq422 "workflow_id and step_key must be supplied together")
  let workflowId ← castText env.parseUuid spec "workflow_id"
  ensure (workflowId ≠ some 0) (tq422 "workflow_id must be non-nil")
  ensure (stepKey.all isStepKey) (tq422 "invalid workflow step_key")
  let scheduledAt ← castText env.parseTime spec "scheduled_at"
  let parentJobId ← castText env.parseUuid spec "parent_job_id"
  .ok ⟨queue, jobType, some payload, priority, scheduledAt, idempotencyKey, concurrencyKey,
    affinityKey, maxAttempts, leaseSeconds, backoffMode, backoffBase, backoffCap, [], workflowId,
    stepKey, parentJobId, headers, ttlSeconds, flowKey⟩

/-- One item of the call: its arguments, the id it would get, and its answer once there is one:
the job and whether this call created it. -/
structure BulkSlot where
  index : ℤ
  args : EnqueueArgs
  id : Uuid
  answer : Option (Uuid × Bool)

/-- Validate the specs in order; all or none of them name one workflow. -/
def parseSpecs (env : Env) (queue : String) (q : Queue) :
    List Jsonb → ℤ → Option (Option Uuid) → Db → Call (List BulkSlot × Db)
  | [], _, _, db => .ok ([], db)
  | spec :: specs, index, mode, db => do
    ensure (spec.kind = .object)
      (tq422 ("taskq: spec " ++ toString index ++ " must be a json object"))
    let args ← (parseSpec env queue q spec).mapError fun e =>
      tq422 ("taskq: spec " ++ toString index ++ " invalid: " ++ e.message)
    ensure (mode.all fun w => w.isSome = args.workflowId.isSome)
      (tq422 "bulk admission cannot mix workflow and ordinary jobs")
    ensure (mode.all fun w => w = args.workflowId) (tq422 "bulk admission must target one workflow")
    let (id, db) := newUuid db
    let (slots, db) ← parseSpecs env queue q specs (index + 1) (some args.workflowId) db
    .ok (⟨index, args, id, none⟩ :: slots, db)

end Specs

section Insert

/-- The membership under which a slot is inserted. -/
def BulkSlot.membership (env : Env) (workflow : Option (Uuid × Workflow)) (slot : BulkSlot) :
    Membership :=
  match workflow with
  | none => .ordinary
  | some (w, workflow) => .member w workflow (intentHash env slot.args []) []

def BulkSlot.row (env : Env) (q : Queue) (workflow : Option (Uuid × Workflow)) (slot : BulkSlot) :
    JobRow :=
  slot.args.row env q (slot.membership env workflow)

/-- A step that exists already answers its slot; a new one must still be allowed in. -/
def replaySlot (env : Env) (w : Uuid) (workflow : Workflow) (db : Db) (slot : BulkSlot) :
    Call BulkSlot :=
  match stepHolder db.toCore w slot.args.stepKey with
  | some (id, member) => do
    ensure (sameStep workflow (intentHash env slot.args []) member.toJobRow) stepMismatch
    .ok { slot with answer := some (id, false) }
  | none => do
    ensure (workflow.sealedAt.isNone) workflowSealed
    ensure ((slot.args.idempotencyKey.bind (keyHolder db.toCore slot.args.queue)).isNone) stepMismatch
    .ok slot

/-- The workflow of a bulk call and its slots after the replays are answered. -/
def resolveSlots (env : Env) (queue : String) (slots : List BulkSlot) (db : Db) :
    Call (Option (Uuid × Workflow) × List BulkSlot) :=
  match slots.head?.bind (·.args.workflowId) with
  | none => .ok (none, slots)
  | some w => do
    ensure ((slots.map (·.args.stepKey)).Nodup) (tq422 "workflow bulk step_keys must be distinct")
    ensure ((slots.filterMap (·.args.idempotencyKey)).Nodup)
      (.because .tq409 "workflow bulk idempotency keys must be distinct" "workflow_step_mismatch")
    match db.workflows.get? w with
    | none => .error (.mk' .tq001 "taskq: no such workflow")
    | some workflow => do
      ensure (queue ∈ workflow.declaredQueues) undeclaredQueue
      let slots ← slots.mapM (replaySlot env w workflow db)
      .ok (some (w, workflow), slots)

/-- The set-based insert: rows whose key is taken are passed over. -/
def insertSlots (env : Env) (q : Queue) (workflow : Option (Uuid × Workflow)) :
    List BulkSlot → Db → Call (List BulkSlot × Db)
  | [], db => .ok ([], db)
  | slot :: slots, db =>
    if slot.answer.isSome then do
      let (rest, db) ← insertSlots env q workflow slots db
      .ok (slot :: rest, db)
    else do
      match ← insertJob env slot.id (slot.row env q workflow) db with
      | some db =>
        let (rest, db) ← insertSlots env q workflow slots db
        .ok ({ slot with answer := some (slot.id, true) } :: rest, db)
      | none =>
        let (rest, db) ← insertSlots env q workflow slots db
        .ok (slot :: rest, db)

/-- A slot that the set-based insert passed over: the holder of its key, or another try. -/
def convergeSlot (env : Env) (q : Queue) (workflow : Option (Uuid × Workflow)) (slot : BulkSlot) :
    ℕ → Db → Call ((Uuid × Bool) × Db)
  | 0, _ => .error (.mk' .tq500 ("taskq: bulk insert did not converge for key " ++
      slot.args.idempotencyKey.getD "<NULL>" ++ " on queue " ++ slot.args.queue ++ " (spec " ++
      toString slot.index ++ ")"))
  | tries+1, db =>
    match workflow.bind fun w => (stepHolder db.toCore w.1 slot.args.stepKey).map fun h => (w.2, h) with
    | some (workflow, id, member) => do
      ensure (sameStep workflow (intentHash env slot.args []) member.toJobRow) stepMismatch
      .ok ((id, false), db)
    | none =>
      match slot.args.idempotencyKey.bind (keyHolder db.toCore slot.args.queue) with
      | some (id, _) => do
        ensure (workflow.isNone) stepMismatch
        .ok ((id, false), db)
      | none => do
        match ← insertJob env slot.id (slot.row env q workflow) db with
        | some db => .ok ((slot.id, true), db)
        | none => convergeSlot env q workflow slot tries db

/-- A slot with its answer. -/
def answerSlot (env : Env) (q : Queue) (workflow : Option (Uuid × Workflow)) (slot : BulkSlot)
    (db : Db) : Call (BulkSlot × Db) :=
  if slot.answer.isSome then .ok (slot, db)
  else do
    let (answer, db) ← convergeSlot env q workflow slot 3 db
    .ok ({ slot with answer := some answer }, db)

def convergeSlots (env : Env) (q : Queue) (workflow : Option (Uuid × Workflow)) :
    List BulkSlot → Db → Call (List BulkSlot × Db)
  | [], db => .ok ([], db)
  | slot :: slots, db => do
    let (slot, db) ← answerSlot env q workflow slot db
    let (rest, db) ← convergeSlots env q workflow slots db
    .ok (slot :: rest, db)

/-- The jobs that the call created. -/
def createdJobs (slots : List BulkSlot) : List Uuid :=
  slots.filterMap fun s => (s.answer.filter (·.2)).map (·.1)

/-- The audit rows of the created jobs, written without `emit_event`. -/
def enqueuedEvents (env : Env) : List Uuid → Db → Db
  | [], db => db
  | id :: ids, db =>
    match db.jobs.get? id with
    | none => enqueuedEvents env ids db
    | some job => enqueuedEvents env ids (insertEvent env id none "enqueued" "system" none
        (some (.build [("status", .str job.status.text),
          ("scheduled_at", .str (env.timeText job.scheduledAt))])) db)

/-- Take the member places of the new slots. -/
def reserveSlots (workflow : Option (Uuid × Workflow)) (fresh : ℕ) (db : Db) : Call Db :=
  match workflow with
  | some (w, workflow) => if 0 < fresh then
      reserveWorkflowMembers w fresh workflow.continuationPolicyHash db else .ok db
  | none => .ok db

/-- One notification when a created job is ready. -/
def notifyCreated (env : Env) (queue : String) (q : Queue) (ids : List Uuid) (db : Db) : Db :=
  if q.notifyEnabled ∧ ids.any (fun id => (db.jobs.get? id).any fun j =>
      j.status = .queued && j.scheduledAt ≤ env.now) then notifyQueue queue db
  else db

/-- `enqueue_many`: for every spec its job, and whether this call created it. -/
def enqueueMany (env : Env) (queue : String) (jobs : Option Jsonb) (db : Db) :
    Call (List (ℤ × Uuid × Bool) × Db) := do
  checkAdmissionOwner env queue db
  let specs := (jobs.map (·.elements)).getD []
  ensure (jobs.any (·.kind = .array) ∧ 1 ≤ specs.length ∧ specs.length ≤ 1000)
    (tq422 "p_jobs must be an array of 1..1000 specs")
  match db.queues.get? queue with
  | none => .error (.mk' .tq001 ("taskq: unknown queue " ++ queue))
  | some q => do
    let (slots, db) ← parseSpecs env queue q specs 1 none db
    let (workflow, slots) ← resolveSlots env queue slots db
    let fresh := slots.countP (·.answer.isNone)
    ensure (fresh = 0 ∨ q.maxDepth.all fun n => queueDepth db queue < n)
      (.mk' .tq429 ("queue " ++ queue ++ " at max_depth " ++ shown q.maxDepth))
    let db ← reserveSlots workflow fresh db
    let (slots, db) ← insertSlots env q workflow slots db
    let (slots, db) ← convergeSlots env q workflow slots db
    let ids := createdJobs slots
    let db := notifyCreated env queue q ids (enqueuedEvents env ids db)
    .ok (slots.filterMap fun s => s.answer.map fun a => (s.index, a.1, a.2), db)

end Insert

end Taskq
