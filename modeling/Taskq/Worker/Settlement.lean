import Taskq.Worker.Reports

/-! The settlement of one attempt: the retry loop around the transport's verb, and the intents that choose it. -/
namespace Taskq
namespace Worker

/-- `_RunControl`, shared by the supervision of a job, its heartbeat loop and the stop of the supervisor. -/
structure RunControl where
  isSync : Bool
  leaseSeconds : ℤ
  /-- `cancellation.reason`. -/
  reason : Option CancellationReason := none
  ownershipLost : Bool := false
  settling : Bool := false
  settlementTerminal : Bool := false
  runtimeFailed : Bool := false
  /-- The operator's grace period has been started. -/
  operatorGrace : Bool := false
  shutdownDeadline : Bool := false
  externalCancelled : Bool := false
  abandonedSync : Bool := false

def RunControl.cancel (c : RunControl) (reason : CancellationReason) : RunControl :=
  { c with reason := cancelToken c.reason reason }

/-- `_ownership_lost_report`. -/
def ownershipLostReport (jobId : Uuid) (c : RunControl) : JobRunReport :=
  let reason := some (c.reason.getD .leaseLost)
  if c.runtimeFailed then
    { jobId := jobId, state := .runtimeFailed, outcome := .runtimeError, cancellationReason := reason,
      requiresProcessExit := c.abandonedSync, fatal := true }
  else
    { jobId := jobId, state := if c.abandonedSync then .abandonedSync else .ownershipLost
      outcome := .ownershipLost, cancellationReason := reason, requiresProcessExit := c.abandonedSync }

/-- The job's ownership was declared lost. -/
def lostBy (control : Option RunControl) : Bool := control.any (·.ownershipLost)

section Retry

/-- The locals of `_settle_with_retry`. -/
structure Attempting where
  command : Verb
  startedAt : ℚ
  attempt : ℕ
  lastErrorCode : Option String
  settleFailing : Bool

/-- How one call of the verb leaves the loop, or lets it sleep before the next call. -/
inductive Next where
  | report (r : JobRunReport)
  | raised (f : Fault)
  | sleep (delay : ℚ) (wakeOnStop : Bool) (a : Attempting)

/-- `_PERMANENT_CONTINUATION_CONFLICTS`. -/
def permanentConflict (reason : Option String) : Bool :=
  reason.any ["continuation_policy_mismatch", "workflow_member_limit_exceeded"].contains

/-- The verb returned. -/
def Attempting.answered (jobId : Uuid) (a : Attempting) (result : SettleOutcome) : JobRunReport :=
  if a.command.outcomes.contains result then reportFromSettle jobId a.command result
  else runtimeFailure jobId a.command

variable (o : Options) (jobId : Uuid) (control : Option RunControl) (stopping : Bool)

/-- After an error that may be retried: another call after a delay, unless the budget for it is used up. -/
def Attempting.retry (a : Attempting) (code : String) (retryAfter : ℚ) (backpressure availability : Bool)
    (now jitter : ℚ) : Next :=
  let lease := control.map (·.leaseSeconds)
  let elapsed := max 0 (now - a.startedAt)
  let capped : Bool := a.attempt < o.settleMaxAttempts
  -- an owned job outlasts an availability outage, while the worker is not draining
  let outlasts : Bool := !backpressure && !capped && availability && lease.isSome && !stopping
  let failing := a.settleFailing || outlasts
  let allowed : Bool :=
    if backpressure then elapsed < o.settleBackpressureMaxElapsed
    else capped || (outlasts && lease.all fun n => elapsed < leaseBudget n)
  let unknown := settlementUnknown jobId a.command (some code)
  if allowed then
    let upper := min (o.settleBackoffBase * 2 ^ min (a.attempt - 1) 30)
      (match lease with
        | some n => if failing then heartbeatInterval n else o.settleBackoffCap
        | none => o.settleBackoffCap)
    let delay := max retryAfter (jitter * upper)
    let delay := if backpressure && !capped then max delay (min o.settleBackoffBase upper) else delay
    if backpressure && decide (o.settleBackpressureMaxElapsed < elapsed + delay) then .report unknown
    else .sleep delay (failing && !stopping) { a with lastErrorCode := some code, settleFailing := failing }
  else
    match control with
    | some c => .report (if c.ownershipLost then ownershipLostReport jobId c else unknown)
    | none => .report unknown

/-- The verb raised. -/
def Attempting.raised (a : Attempting) (fault : Fault) (now jitter : ℚ) : Next :=
  match fault with
  | .taskq .validation _ _ | .taskq .capability _ _ => .raised fault
  | .taskq .conflict reason _ =>
    if a.command = .complete ∧ permanentConflict reason = true then .raised fault
    else .report (runtimeFailure jobId a.command)
  | .taskq code _ retryAfter =>
    if code.retryable then
      a.retry o jobId control stopping code.text retryAfter (code = .backpressure) (code ≠ .backpressure) now jitter
    else .report (runtimeFailure jobId a.command)
  -- resending cannot repair a response that the client itself rejected
  | .malformed => a.retry o jobId control stopping TqCode.internal.text 0 false false now jitter
  | .connection => a.retry o jobId control stopping "transport" 0 false true now jitter
  | .other => .report (runtimeFailure jobId a.command)

end Retry

section Intent

/-- `HandlerResult`, as far as it chooses a verb; `none` in its place releases the attempt. -/
inductive Intent where
  | complete (followups : Bool)
  | snooze | cancel | retry | nonRetryable
  deriving DecidableEq

/-- The verb of `_settle_intent`. -/
def intentVerb (o : Options) (control : Option RunControl) : Option Intent → Verb
  | none => if control.any (·.shutdownDeadline) && o.failOnShutdownDeadline then .fail else .release
  | some (.complete _) => .complete
  | some .snooze => .snooze
  | some .cancel => .cancelRunning
  | some .retry | some .nonRetryable => .fail

/-- The fallback of `_settle_intent` for a completion with followups that the server rejects for good: whether it
fails the job as invalid, and then whether the rejection is a skew of capabilities. -/
def invalidFollowup (intent : Option Intent) (fault : Fault) : Option Bool :=
  if intent = some (.complete true) then
    match fault with
    | .taskq .conflict reason _ =>
      if permanentConflict reason then some (reason = some "continuation_policy_mismatch") else none
    | .taskq .capability _ _ => some true
    | _ => some false
  else none

end Intent

end Worker
end Taskq
