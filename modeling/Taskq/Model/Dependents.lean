import Taskq.Model.JobStore

/-! Cancelling the blocked children of a job that ended badly. `emit_event` does so by itself, so
every verb that reports a failure or a cancellation goes through it. -/
namespace Taskq
open Relational

def tq422 (message : String) : SqlError := .mk' .tq422 message

def unknownQueue (queue : String) : SqlError := .mk' .tq001 ("taskq: unknown queue " ++ queue)

def attestationRequired : SqlError :=
  .because .tq422 "taskq target attestation required" "target_attestation_required"

/-- An optional document is within a byte limit. -/
def withinBytes (limit : ℕ) (document : Option Jsonb) : Bool :=
  document.all fun j => octetLength j.text ≤ limit

/-- A nullable integer in a RAISE message. -/
def shown : Option ℤ → String
  | none => "<NULL>"
  | some n => toString n

/-- `error` and `reason` texts are stored in at most 2048 bytes. -/
def storedText (s : Option String) : Option String := s.map (truncateUtf8 · 2048)

def idLe {ρ : Type} (a b : Uuid × ρ) : Bool := a.1 ≤ b.1

def limitError : SqlError := tq422 "limit must be 1..1000"

/-- The blocked children of a job, in id order. -/
def blockedChildren (env : Env) (parent : Uuid) (core : Core) : List Uuid :=
  (core.jobs.selectBy (fun id j => (id, parent) ∈ core.deps ∧ j.status = .blocked ∧ ¬env.locked id)
    idLe).map (·.1)

/-- Cancel one blocked child and remove its own edges; reports whether it was still blocked. -/
def cancelDependent (env : Env) (reason : String) (child : Uuid) (db : Db) : Call (Bool × Db) :=
  match (db.jobs.get? child).filter (·.status = .blocked) with
  | none => .ok (false, db)
  | some job => do
    let db ← writeJob env child job
      { job.toJobRow with
          status := .cancelled, outcome := some "dep_failed", error := storedText (some reason)
          finishedAt := some env.now, updatedAt := env.now } db
    .ok (true, insertEvent env child none "cancelled" "system" reason
      (some (.build [("reason", .str "dep_failed")])) (dropOwnEdges child db))

def cancelDependentsLoop (env : Env) (reason : String) : List Uuid → Db → Call (ℤ × Db)
  | [], db => .ok (0, db)
  | child :: children, db => do
    let (cancelled, db) ← cancelDependent env reason child db
    let (n, db) ← cancelDependentsLoop env reason children db
    .ok (if cancelled then n + 1 else n, db)

/-- `cancel_dependents`. -/
def cancelDependents (env : Env) (id : Uuid) (reason : String) (limit : Option ℤ) (db : Db) :
    Call (ℤ × Db) := do
  ensure (limit.any fun n => 1 ≤ n ∧ n ≤ 1000) limitError
  cancelDependentsLoop env reason ((blockedChildren env id db.toCore).take (limit.getD 0).toNat) db

/-- `emit_event`: record the event, and on a failure or a cancellation cancel the dependents. -/
def emitEvent (env : Env) (jobId : Uuid) (attemptId : Option Uuid) (eventType : String)
    (actor message : Option String) (data : Option Jsonb) (db : Db) : Call Db := do
  let db := insertEvent env jobId attemptId eventType actor message data db
  if eventType = "failed" then do
    let (_, db) ← cancelDependents env jobId "dependency failed" (some 100) db
    .ok db
  else if eventType = "cancelled" then do
    let (_, db) ← cancelDependents env jobId "dependency cancelled" (some 100) db
    .ok db
  else .ok db

end Taskq
