import Taskq.Model.System

/-! What can happen to one job. A call is a sequence of labelled steps; a step changes one row in one
of the ways listed here, and every law about single jobs is read off this list. -/
namespace Taskq
open Relational

/-- The columns in which the life of a job shows. -/
structure Life where
  status : JobStatus
  attempt : Option Uuid
  leased : Bool
  cancelRequested : Bool
  pendingDeps : ℤ
  attemptCount : ℤ
  failureCount : ℤ
  releaseCount : ℤ
  expiryStreak : ℤ
  admission : Option Uuid
  deriving DecidableEq, Repr

def JobRow.life (r : JobRow) : Life where
  status := r.status
  attempt := r.currentAttemptId
  leased := r.leaseExpiresAt.isSome
  cancelRequested := r.cancelRequestedAt.isSome
  pendingDeps := r.pendingDeps
  attemptCount := r.attemptCount
  failureCount := r.failureCount
  releaseCount := r.releaseCount
  expiryStreak := r.expiryStreak
  admission := r.admissionId

/-- The columns that no call changes after admission. -/
structure Identity where
  queue : String
  jobType : String
  payload : Jsonb
  headers : Option Jsonb
  idempotencyKey : Option String
  concurrencyKey : Option String
  affinityKey : Option String
  flowKey : Option String
  workflowId : Option Uuid
  stepKey : Option String
  workflowIntentHash : Option String
  continuationPolicyHash : Option String
  parentJobId : Option Uuid
  expiresAt : Option Time
  leaseSeconds : ℤ
  maxAttempts : ℤ
  backoffMode : BackoffMode
  backoffBaseSeconds : ℤ
  backoffCapSeconds : ℤ
  createdAt : Time
  deriving DecidableEq, Repr

def JobRow.identity (r : JobRow) : Identity where
  queue := r.queue
  jobType := r.jobType
  payload := r.payload
  headers := r.headers
  idempotencyKey := r.idempotencyKey
  concurrencyKey := r.concurrencyKey
  affinityKey := r.affinityKey
  flowKey := r.flowKey
  workflowId := r.workflowId
  stepKey := r.stepKey
  workflowIntentHash := r.workflowIntentHash
  continuationPolicyHash := r.continuationPolicyHash
  parentJobId := r.parentJobId
  expiresAt := r.expiresAt
  leaseSeconds := r.leaseSeconds
  maxAttempts := r.maxAttempts
  backoffMode := r.backoffMode
  backoffBaseSeconds := r.backoffBaseSeconds
  backoffCapSeconds := r.backoffCapSeconds
  createdAt := r.createdAt

/-- The ways in which a call rewrites one row of `jobs`. -/
inductive Change where
  | start | beat | succeed | retry | bury (retryable : Option Bool) | snooze | release
  | cancelRunning | expireRetry | expireBury | expireCancel
  | withdraw (dropsEdges : Bool) (old : JobStatus)
  | requestCancel | promote | redrive | adjust
  | link (admission : Uuid)
  deriving DecidableEq, Repr

/-- The ledger status with which a change closes the running attempt. -/
def Change.closes : Change → Option AttemptStatus
  | .succeed => some .succeeded
  | .retry | .bury _ => some .failed
  | .snooze => some .snoozed
  | .release => some .released
  | .cancelRunning => some .cancelled
  | .expireRetry | .expireBury | .expireCancel => some .expired
  | _ => none

/-- Only these changes leave a job blocked. -/
def Change.mayBlock : Change → Bool
  | .promote | .adjust | .link _ => true
  | _ => false

/-- The change removes the edges on which the job itself waits. -/
def Change.unlinks : Change → Bool
  | .withdraw drops _ => drops
  | _ => false

namespace Life

/-- The life of a job that its producer has just admitted. -/
def fresh (status : JobStatus) (pendingDeps : ℤ) : Life :=
  ⟨status, none, false, false, pendingDeps, 0, 0, 0, 0, none⟩

/-- Nobody works on the job any more. -/
def ended (l : Life) (status : JobStatus) : Life :=
  { l with status := status, attempt := none, leased := false }

/-- One more failure. -/
def failedOnce (l : Life) (streak : ℤ) : Life :=
  { l with failureCount := l.failureCount + 1, expiryStreak := streak }

/-- A failure is the last one: the flag says so, or the budget is used up. -/
def spent (l : Life) (max : ℤ) (retryable : Option Bool) : Prop :=
  retryable ≠ some true ∨ max ≤ l.failureCount + 1

/-- An expiry is the last one: the third in a row, or the budget is used up. -/
def quarantined (l : Life) (max : ℤ) : Prop := 3 ≤ l.expiryStreak + 1 ∨ max ≤ l.failureCount + 1

/-- What each kind of step does to a job with a retry budget of `max`. -/
inductive Step (max : ℤ) : Change → Life → Life → Prop
  | start (l : Life) (attempt : Uuid) (queued : l.status = .queued)
      (unasked : l.cancelRequested = false) :
      Step max .start l { l with
        status := .running, attempt := some attempt, leased := true
        attemptCount := l.attemptCount + 1 }
  | beat (l : Life) (running : l.status = .running) : Step max .beat l { l with leased := true }
  | succeed (l : Life) (running : l.status = .running) :
      Step max .succeed l { l.ended .succeeded with expiryStreak := 0 }
  | retry (l : Life) (running : l.status = .running) (unasked : l.cancelRequested = false)
      (room : l.failureCount + 1 < max) : Step max .retry l ((l.ended .queued).failedOnce 0)
  | bury (l : Life) (retryable : Option Bool) (running : l.status = .running)
      (unasked : l.cancelRequested = false) (last : l.spent max retryable) :
      Step max (.bury retryable) l ((l.ended .failed).failedOnce 0)
  | snooze (l : Life) (running : l.status = .running) (unasked : l.cancelRequested = false) :
      Step max .snooze l { l.ended .queued with expiryStreak := 0 }
  | release (l : Life) (running : l.status = .running) (unasked : l.cancelRequested = false) :
      Step max .release l { l.ended .queued with releaseCount := l.releaseCount + 1 }
  | cancelRunning (l : Life) (streak : ℤ) (running : l.status = .running)
      (streaks : streak = l.expiryStreak ∨ streak = 0) :
      Step max .cancelRunning l { l.ended .cancelled with expiryStreak := streak }
  | expireRetry (l : Life) (running : l.status = .running) (unasked : l.cancelRequested = false)
      (kept : ¬l.quarantined max) :
      Step max .expireRetry l ((l.ended .queued).failedOnce (l.expiryStreak + 1))
  | expireBury (l : Life) (running : l.status = .running) (unasked : l.cancelRequested = false)
      (last : l.quarantined max) :
      Step max .expireBury l ((l.ended .failed).failedOnce (l.expiryStreak + 1))
  | expireCancel (l : Life) (running : l.status = .running) (asked : l.cancelRequested = true) :
      Step max .expireCancel l (l.ended .cancelled)
  | withdraw (l : Life) (dropsEdges asked : Bool)
      (idle : l.status = .blocked ∨ l.status = .queued ∨ (l.status = .cancelled ∧ dropsEdges = false))
      (keeps : l.cancelRequested = true → asked = true) :
      Step max (.withdraw dropsEdges l.status) l
        { l with status := .cancelled, cancelRequested := asked }
  | requestCancel (l : Life) (running : l.status = .running) :
      Step max .requestCancel l { l with cancelRequested := true }
  | promote (l : Life) (blocked : l.status = .blocked) :
      Step max .promote l { l with
        pendingDeps := l.pendingDeps - 1
        status := if l.pendingDeps = 1 then .queued else .blocked }
  | redrive (l : Life) (failed : l.status = .failed) :
      Step max .redrive l { l with
        status := .queued, failureCount := 0, expiryStreak := 0, cancelRequested := false }
  | adjust (l : Life) : Step max .adjust l l
  | link (l : Life) (admission : Uuid) : Step max (.link admission) l { l with admission := some admission }

theorem Step.withdraw_inv {max : ℤ} {drops : Bool} {was : JobStatus} {l l' : Life}
    (step : Step max (.withdraw drops was) l l') : l.status = was ∧ l'.status = .cancelled := by
  cases step
  exact ⟨rfl, rfl⟩

theorem Step.promote_inv {max : ℤ} {l l' : Life} (step : Step max .promote l l') :
    l.status = .blocked := by
  cases step
  assumption

theorem Step.not_blocked {max : ℤ} {k : Change} {l l' : Life} (step : Step max k l l')
    (settles : k.mayBlock = false) : l'.status ≠ .blocked := by
  cases step <;> simp_all [Change.mayBlock, Life.ended, Life.failedOnce]

end Life

/-- A row that is stored fits its `smallint` columns. -/
structure JobRow.InRange (r : JobRow) : Prop where
  priority : -32768 ≤ r.priority ∧ r.priority ≤ 32767
  pendingDeps : -32768 ≤ r.pendingDeps ∧ r.pendingDeps ≤ 32767
  attemptCount : -32768 ≤ r.attemptCount ∧ r.attemptCount ≤ 32767
  failureCount : -32768 ≤ r.failureCount ∧ r.failureCount ≤ 32767
  releaseCount : -32768 ≤ r.releaseCount ∧ r.releaseCount ≤ 32767
  expiryStreak : -32768 ≤ r.expiryStreak ∧ r.expiryStreak ≤ 32767
  maxAttempts : -32768 ≤ r.maxAttempts ∧ r.maxAttempts ≤ 32767

theorem storeJob_eq_ok {r : JobRow} {j : Job} :
    storeJob r = .ok j ↔ r.InRange ∧ j.toJobRow = r := by
  constructor
  · intro stored
    refine ⟨?_, storeJob_toRow stored⟩
    simp only [storeJob, seq_eq_ok, int2_eq_ok] at stored
    obtain ⟨_, ⟨h1, -⟩, _, ⟨h2, -⟩, _, ⟨h3, -⟩, _, ⟨h4, -⟩, _, ⟨h5, -⟩, _, ⟨h6, -⟩, _, ⟨h7, -⟩, -⟩ :=
      stored
    exact ⟨h1, h2, h3, h4, h5, h6, h7⟩
  · rintro ⟨range, rfl⟩
    simp [storeJob, int2, range.priority, range.pendingDeps, range.attemptCount, range.failureCount,
      range.releaseCount, range.expiryStreak, range.maxAttempts, j.checks, bind, Except.bind]

namespace Job

variable (j : Job)

theorem checks_parts : j.columnsOk = true ∧ j.memberShape = true ∧ j.runningShape = true ∧
    j.terminalShape = true := by
  have h := j.checks
  simpa only [JobRow.checksOk, Bool.and_eq_true, and_assoc] using h

/-- A running job has an attempt and a lease, and no other job has both. -/
theorem running_iff : j.status = .running ↔ j.currentAttemptId.isSome ∧ j.leaseExpiresAt.isSome := by
  have h := j.checks_parts.2.2.1
  simp only [JobRow.runningShape, decide_eq_true_eq] at h
  rw [← Bool.and_eq_true, ← h]

theorem terminal_iff : j.status.terminal = true ↔ j.finishedAt.isSome := by
  have h := j.checks_parts.2.2.2
  simp only [JobRow.terminalShape, decide_eq_true_eq] at h
  rw [h]

end Job

end Taskq
