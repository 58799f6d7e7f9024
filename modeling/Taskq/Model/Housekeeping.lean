import Taskq.Library.Cursor
import Taskq.Model.Settle

/-! Passes over many rows: lease reclaim, TTL settlement, cancel and dependency stragglers, the tick
that runs them, and the janitor's retention. -/
namespace Taskq
open Relational

/-- `LIMIT n`, which refuses a negative number. -/
def checkLimit (n : ℤ) : Call Unit := ensure (0 ≤ n) (.mk' .invalidRowCount "LIMIT must not be negative")

/-- The transaction has not changed the row since the query of its loop: an update of these loops leaves no row as it was. -/
def sameJob (before db : Db) (id : Uuid) : Bool := db.jobs.get? id = before.jobs.get? id

section Reap

/-- The lease of a running job has run out. -/
def leaseExpired (env : Env) (job : JobRow) : Bool :=
  job.status = .running && job.leaseExpiresAt.any (· ≤ env.now)

/-- An expired attempt whose job was asked to cancel. -/
def reapCancelled (env : Env) (id : Uuid) (job : Job) (db : Db) : Call Db := do
  let db ← writeJob env id job
    { job.toJobRow.detached with
        status := .cancelled, outcome := some "canceled_after_expiry"
        finishedAt := some env.now, updatedAt := env.now } db
  emitEvent env id job.currentAttemptId "cancelled" "system"
    "lease expired with cancel pending" none db

/-- An expired attempt that was the last, or the third expiry in a row. -/
def reapFailed (env : Env) (id : Uuid) (job : Job) (poison : Bool) (db : Db) : Call Db := do
  let db ← writeJob env id job
    { job.toJobRow.detached with
        status := .failed, outcome := some (if poison then "poison" else "retry_exhausted")
        failureCount := job.failureCount + 1, expiryStreak := job.expiryStreak + 1
        error := job.error <|> some "lease expired"
        finishedAt := some env.now, updatedAt := env.now } db
  emitEvent env id job.currentAttemptId "failed" "system"
    (if poison then "poison quarantine" else "expiry exhausted budget") none db

/-- An expired attempt that is followed by another one. -/
def reapRequeued (env : Env) (id : Uuid) (job : Job) (db : Db) : Call Db := do
  let delay ← backoffSeconds env id job.backoffMode job.backoffBaseSeconds job.backoffCapSeconds
    (job.failureCount + 1)
  let db ← writeJob env id job
    { job.toJobRow.detached with
        status := .queued, scheduledAt := env.now + seconds delay
        failureCount := job.failureCount + 1, expiryStreak := job.expiryStreak + 1
        updatedAt := env.now } db
  emitEvent env id job.currentAttemptId "lease_expired" "system"
    ("requeued +" ++ toString delay ++ "s" : String) none db

/-- An expired attempt settles or requeues its job. -/
def settleExpired (env : Env) (id : Uuid) (job : Job) (db : Db) : Call Db :=
  let poison := 3 ≤ job.expiryStreak + 1
  if job.cancelRequestedAt.isSome then reapCancelled env id job db
  else if poison ∨ job.maxAttempts ≤ job.failureCount + 1 then reapFailed env id job poison db
  else reapRequeued env id job db

/-- `reap_job`: reclaim one expired row, unless another transaction holds it. -/
def reapJob (env : Env) (id : Uuid) (db : Db) : Call (Bool × Db) :=
  match (db.jobs.get? id).filter fun j => leaseExpired env j.toJobRow && !env.locked id with
  | none => .ok (false, db)
  | some job => do
    let db :=
      match job.currentAttemptId with
      | none => db
      | some attempt => closeAttempt attempt (fun a => { a with
          status := .expired, outcome := some "lease_expired", finishedAt := some env.now }) db
    let db ← settleExpired env id job db
    .ok (true, db)

/-- Reap a list of rows; returns how many were reclaimed. -/
def reapAll (env : Env) : List Uuid → Db → Call (ℤ × Db)
  | [], db => .ok (0, db)
  | id :: ids, db => do
    let (reaped, db) ← reapJob env id db
    let (n, db) ← reapAll env ids db
    .ok (if reaped then n + 1 else n, db)

/-- Expired leases, the oldest first. -/
def expiredLeases (env : Env) (core : Core) : List Uuid :=
  (core.jobs.selectBy (fun _ j => leaseExpired env j.toJobRow)
    (fun a b => a.2.leaseExpiresAt.getD 0 ≤ b.2.leaseExpiresAt.getD 0)).map (·.1)

/-- `reap_expired`. -/
def reapExpired (env : Env) (limit : Option ℤ) (db : Db) : Call (ℤ × Db) :=
  reapAll env ((expiredLeases env db.toCore).take (max (limit.getD 0) 0).toNat) db

end Reap

section Stragglers

/-- A row that has not started: the bulk paths settle it without an attempt. -/
def unstarted (job : JobRow) : Bool := job.status = .blocked || job.status = .queued

/-- Rows with a cancel request that left the running state, in id order. -/
def cancelStragglers (env : Env) (core : Core) : List Uuid :=
  (core.jobs.selectBy (fun id j => j.cancelRequestedAt.isSome ∧ unstarted j.toJobRow ∧ ¬env.locked id)
    idLe).map (·.1)

/-- Settle one straggler. -/
def finalizeStraggler (env : Env) (id : Uuid) (db : Db) : Call Db := do
  let db ← updateJob env id (fun r => { r with
    status := .cancelled, outcome := some "canceled", finishedAt := some env.now
    updatedAt := env.now }) db
  emitEvent env id none "cancelled" "system" "cancel straggler sweep" none db

/-- `finalize_cancel_stragglers`. -/
def finalizeCancelStragglers (env : Env) (limit : Option ℤ) (db : Db) : Call (ℤ × Db) := do
  let n := min (limit.getD 200) 200
  checkLimit n
  let (ids, db) ← forRows (sameJob db) (finalizeStraggler env) n.toNat (cancelStragglers env db.toCore) db
  .ok (ids.length, db)

/-- Rows whose time to live has passed, the oldest first. -/
def ttlExpired (env : Env) (core : Core) : List Uuid :=
  (core.jobs.selectBy (fun id j => unstarted j.toJobRow ∧ j.expiresAt.any (· ≤ env.now) ∧
      ¬env.locked id)
    (fun a b => a.2.expiresAt.getD 0 ≤ b.2.expiresAt.getD 0)).map (·.1)

/-- Settle one row past its time to live. -/
def expireTtlJob (env : Env) (id : Uuid) (db : Db) : Call Db := do
  let db ← updateJob env id (fun r => { r with
    status := .cancelled, outcome := some "expired_ttl", finishedAt := some env.now
    updatedAt := env.now, cancelRequestedAt := r.cancelRequestedAt <|> some env.now
    cancelReason := r.cancelReason <|> some "expired_ttl" }) db
  emitEvent env id none "cancelled" "taskq-ttl" "ttl expired"
    (some (.build [("reason", .str "expired_ttl")])) db

/-- The loop of `expire_ttl`. -/
def expireRows (env : Env) (limit : ℕ) (db : Db) : Call (List Uuid × Db) :=
  forRows (sameJob db) (expireTtlJob env) limit (ttlExpired env db.toCore) db

/-- `expire_ttl`. -/
def expireTtl (env : Env) (limit : Option ℤ) (db : Db) : Call (ℤ × Db) := do
  let n := min (limit.getD 200) 500
  checkLimit n
  let (ids, db) ← expireRows env n.toNat db
  .ok (ids.length, db)

end Stragglers

section Dependencies

/-- An edge as the straggler pass reads it: child, parent and the parent's status. -/
abbrev ReadyEdge := Uuid × Uuid × JobStatus

def edgeLe (a b : ReadyEdge) : Bool := a.2.1 < b.2.1 || (a.2.1 = b.2.1 && a.1 ≤ b.1)

/-- Edges from a blocked child to a terminal parent, in order of parent and child. -/
def readyEdges (env : Env) (core : Core) : List ReadyEdge :=
  ((core.jobs.select fun _ p => p.status.terminal).flatMap fun (parent, p) =>
    (blockedChildren env parent core).map fun child => (child, parent, p.status)).insertionSort
      fun a b => edgeLe a b

/-- One edge of the straggler pass. -/
def finalizeEdge (env : Env) (edge : ReadyEdge) (db : Db) : Call (ℤ × Db) :=
  let (child, parent, status) := edge
  if status = .succeeded then do
    let found := (child, parent) ∈ db.deps
    let db ← promoteChild env parent child db
    .ok (if found then 1 else 0, db)
  else cancelDependents env parent "dependency terminal" (some 1) db

/-- The body of the straggler pass, which counts what it did. -/
def countEdge (env : Env) (edge : ReadyEdge) (counted : ℤ × Db) : Call (ℤ × Db) := do
  let (n, db) ← finalizeEdge env edge counted.2
  .ok (counted.1 + n, db)

/-- `finalize_dep_stragglers`; its query locks the children. -/
def finalizeDepStragglers (env : Env) (limit : Option ℤ) (db : Db) : Call (ℤ × Db) := do
  ensure (limit.any fun n => 1 ≤ n ∧ n ≤ 1000) limitError
  let (_, counted) ← forRows (fun counted edge => sameJob db counted.2 edge.1) (countEdge env)
    (limit.getD 0).toNat (readyEdges env db.toCore) (0, db)
  .ok counted

end Dependencies

end Taskq
