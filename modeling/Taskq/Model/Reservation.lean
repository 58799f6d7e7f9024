import Taskq.Model.BulkAdmission

/-! Two-phase admission: a producer reserves an idempotency key, then finishes or cancels. -/
namespace Taskq
open Relational

/-- The admission of a queue under a key. -/
def admissionByKey (db : Db) (queue key : String) : Option (Uuid × Admission) :=
  (db.admissions.select fun _ a => a.queue = queue ∧ a.idempotencyKey = key).head?

def Db.putAdmission (db : Db) (id : Uuid) (a : Admission) : Db :=
  { db with admissions := db.admissions.put id a }

@[simp] theorem Db.putAdmission_toCore (db : Db) (id : Uuid) (a : Admission) :
    (db.putAdmission id a).toCore = db.toCore := rfl

/-- The checks on queue, key and handle that the three functions share. -/
def checkAdmissionKey (queue : String) (key : Option String) (db : Db) : Call String := do
  ensure ((db.queues.get? queue).isSome) (.mk' .tq001 "taskq: unknown queue")
  match key with
  | none => .error (tq422 "idempotency_key must be 1..255 chars")
  | some key => do
    ensure (key ≠ "" ∧ key.length ≤ 255) (tq422 "idempotency_key must be 1..255 chars")
    .ok key

def checkHandle (handle : Option Uuid) : Call Uuid :=
  match handle with
  | some handle => if handle ≠ 0 then .ok handle
      else .error (tq422 "handle must be a non-nil UUID")
  | none => .error (tq422 "handle must be a non-nil UUID")

def noSuchAdmission : SqlError := .mk' .tq001 "taskq: no such admission"

def reservationConflict : SqlError :=
  .because .tq409 "taskq: reservation handle conflict" "reservation_conflict"

section Reserve

/-- `taskq.admission_reservation`. -/
inductive ReserveResult where
  | reserved (handle : Uuid) (expiresAt : Time)
  | pending (expiresAt : Time) (retryAfter : ℤ)
  | admitted (jobId : Option Uuid) (receipt : Option Jsonb) (receiptExpiresAt : Option Time)
  deriving DecidableEq, Repr

def intentMismatch : SqlError :=
  .because .tq409 "taskq: admission intent mismatch" "idempotency_mismatch"

/-- The answer of an admission that is still in force, if it is. -/
def standingReservation (env : Env) (id : Uuid) (a : Admission) (intent : String) (handle : Uuid)
    (core : Core) : Call (Option ReserveResult) :=
  match a.state with
  | .admitted =>
    if a.receiptExpiresAt.any (· ≤ env.now) ∧ core.jobs.count (fun _ j => j.admissionId = some id) = 0
    then .ok none
    else do
      ensure (a.intentHash = intent) intentMismatch
      .ok (some (.admitted a.jobId a.receipt a.receiptExpiresAt))
  | .reserved =>
    if env.now < a.reservationExpiresAt then do
      ensure (a.intentHash = intent) intentMismatch
      if a.handle = handle then .ok (some (.reserved a.handle a.reservationExpiresAt))
      else do
        let wait ← int4 ⌈((a.reservationExpiresAt - env.now : ℤ) : ℚ) / 1000000⌉
        .ok (some (.pending a.reservationExpiresAt (max 1 wait)))
    else .ok none
  | .cancelled => .ok none

/-- `reserve_admission`. -/
def reserveAdmission (env : Env) (queue : String) (key intent : Option String)
    (handle : Option Uuid) (reservationTtl receiptTtl : Option ℤ) (db : Db) :
    Call (ReserveResult × Db) := do
  checkAdmissionOwner env queue db
  let key ← checkAdmissionKey queue key db
  ensure (intent.any isSha256) (tq422 "intent_hash must be lowercase SHA-256 hex")
  let handle ← checkHandle handle
  ensure (reservationTtl.any fun n => 15 ≤ n ∧ n ≤ 3600)
    (tq422 "reservation_ttl_seconds must be 15..3600")
  ensure (receiptTtl.any fun n => 3600 ≤ n ∧ n ≤ 31536000)
    (tq422 "receipt_ttl_seconds must be 3600..31536000")
  let intent := intent.getD ""
  let expires := env.now + seconds (reservationTtl.getD 0)
  let reserved (createdAt : Time) : Admission :=
    { queue := queue, idempotencyKey := key, intentHash := intent, handle := handle
      state := .reserved, reservationExpiresAt := expires, receiptTtlSeconds := receiptTtl.getD 0
      finishHash := none, jobId := none, receipt := none, receiptExpiresAt := none
      createdAt := createdAt, updatedAt := env.now }
  match admissionByKey db queue key with
  | none =>
    let (id, db) := newUuid db
    .ok (.reserved handle expires, db.putAdmission id (reserved env.now))
  | some (id, a) => do
    match ← standingReservation env id a intent handle db.toCore with
    | some answer => .ok (answer, db)
    | none => .ok (.reserved handle expires, db.putAdmission id (reserved a.createdAt))

end Reserve

section Finish

inductive FinishOutcome where
  | existed | created
  deriving DecidableEq, Repr

/-- `taskq.admission_finish_result`. -/
structure FinishResult where
  outcome : FinishOutcome
  jobId : Option Uuid
  receipt : Option Jsonb
  receiptExpiresAt : Option Time
  deriving DecidableEq, Repr

def admissionJobKeys : List String :=
  ["job_type", "payload", "priority", "scheduled_at", "concurrency_key", "affinity_key",
   "max_attempts", "lease_seconds", "backoff_mode", "backoff_base", "backoff_cap", "headers"]

/-- A field that, when present, has this kind or is null. -/
def checkKind (job : Jsonb) (kind : Jsonb.Kind) (key : String) : Call Unit :=
  ensure ((job.field? key).all fun v => v.kind = kind ∨ v.kind = .null) (tq422 ("invalid " ++ key))

def smallField (env : Env) (job : Jsonb) (key : String) : Call (Option ℤ) := do
  match ← castText env.parseInt job key with
  | none => .ok none
  | some n => do
    let n ← int2 n
    .ok (some n)

/-- The casts of a finished job's fields. -/
def castAdmissionJob (env : Env) (queue : String) (job : Jsonb) : Call EnqueueArgs := do
  let priority ← smallField env job "priority"
  let scheduledAt ← castText env.parseTime job "scheduled_at"
  let maxAttempts ← smallField env job "max_attempts"
  let leaseSeconds ← castInt env job "lease_seconds"
  let backoffBase ← castInt env job "backoff_base"
  let backoffCap ← castInt env job "backoff_cap"
  .ok ⟨queue, job.fieldText? "job_type", job.field? "payload", priority, scheduledAt, none,
    job.fieldText? "concurrency_key", job.fieldText? "affinity_key", maxAttempts, leaseSeconds,
    job.fieldText? "backoff_mode", backoffBase, backoffCap, [], none, none, none,
    (job.field? "headers").filter (·.kind ≠ .null), none, none⟩

/-- The checks on a finished job before its fields are used. -/
def parseAdmissionJob (env : Env) (queue : String) (job : Jsonb) : Call EnqueueArgs := do
  ensure (job.kind = .object ∧ job.hasKey "job_type" ∧ job.hasKey "payload")
    (tq422 "job must be an object with job_type and payload")
  ensure (job.keys.all admissionJobKeys.contains) (tq422 "job contains an unsupported field")
  ensure ((job.field? "job_type").any (·.kind = .string) ∧ (job.field? "payload").any (·.kind = .object))
    (tq422 "job_type must be a string and payload an object")
  checkKind job .number "priority"
  checkKind job .string "scheduled_at"
  checkKind job .number "max_attempts"
  checkKind job .number "lease_seconds"
  checkKind job .number "backoff_base"
  checkKind job .number "backoff_cap"
  checkKind job .string "concurrency_key"
  checkKind job .string "affinity_key"
  checkKind job .string "backoff_mode"
  checkKind job .object "headers"
  (castAdmissionJob env queue job).mapError fun _ => tq422 "job contains an invalid typed value"

/-- Enqueue the job of a reservation and turn the reservation into a receipt. -/
def admitReserved (env : Env) (id : Uuid) (a : Admission) (args : EnqueueArgs) (finishHash : String)
    (receipt : Jsonb) (db : Db) : Call (FinishResult × Db) := do
  let ((jobId, created), db) ← enqueue env args db
  ensure (created = true) (.mk' .tq500 "taskq: admission enqueue did not create a job")
  let db ← updateJob env jobId (fun r => { r with admissionId := some id }) db
  let expires := env.now + seconds a.receiptTtlSeconds
  .ok (⟨.created, some jobId, some receipt, some expires⟩, db.putAdmission id
    { a with
      state := .admitted, finishHash := some finishHash, jobId := some jobId
      receipt := some receipt, receiptExpiresAt := some expires, updatedAt := env.now })

/-- `finish_admission`. -/
def finishAdmission (env : Env) (queue : String) (key : Option String) (handle : Option Uuid)
    (job receipt : Option Jsonb) (db : Db) : Call (FinishResult × Db) := do
  checkAdmissionOwner env queue db
  let key ← checkAdmissionKey queue key db
  let handle ← checkHandle handle
  let job := job.getD .null
  let args ← parseAdmissionJob env queue job
  let receipt := receipt.getD .null
  ensure (receipt.kind = .object ∧ octetLength receipt.text ≤ 2048)
    (tq422 "receipt must be an object at most 2048 bytes")
  let finishHash := env.sha256 (Jsonb.text (.build [("job", job), ("receipt", receipt)]))
  match admissionByKey db queue key with
  | none => .error noSuchAdmission
  | some (id, a) => do
    ensure (a.handle = handle) reservationConflict
    match a.state with
    | .admitted => do
      ensure (a.finishHash = some finishHash)
        (.because .tq409 "taskq: finish content mismatch" "finish_mismatch")
      .ok (⟨.existed, a.jobId, a.receipt, a.receiptExpiresAt⟩, db)
    | .cancelled => .error (.because .tq409 "taskq: reservation cancelled" "reservation_cancelled")
    | .reserved => do
      ensure (env.now < a.reservationExpiresAt)
        (.because .tq409 "taskq: reservation expired" "reservation_expired")
      admitReserved env id a args finishHash receipt db

end Finish

section Cancel

/-- `taskq.admission_cancel_result`. -/
inductive CancelAdmissionResult where
  | alreadyAdmitted (jobId : Option Uuid) (receipt : Option Jsonb) (expiresAt : Option Time)
  | alreadyCancelled | expired | cancelled
  deriving DecidableEq, Repr

/-- `cancel_admission`. -/
def cancelAdmission (env : Env) (queue : String) (key : Option String) (handle : Option Uuid)
    (db : Db) : Call (CancelAdmissionResult × Db) := do
  checkAdmissionOwner env queue db
  let key ← checkAdmissionKey queue key db
  let handle ← checkHandle handle
  match admissionByKey db queue key with
  | none => .error noSuchAdmission
  | some (id, a) => do
    ensure (a.handle = handle) reservationConflict
    match a.state with
    | .admitted => .ok (.alreadyAdmitted a.jobId a.receipt a.receiptExpiresAt, db)
    | .cancelled => .ok (.alreadyCancelled, db)
    | .reserved =>
      if a.reservationExpiresAt ≤ env.now then .ok (.expired, db)
      else .ok (.cancelled, db.putAdmission id { a with state := .cancelled, updatedAt := env.now })

end Cancel

end Taskq
