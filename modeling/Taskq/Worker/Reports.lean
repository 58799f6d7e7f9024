import Taskq.Model.Settle

/-! What the worker process says about one claimed job: its options, the errors of its transport, the reason of a
cancellation, and the report with which the supervision of the job ends. -/
namespace Taskq
namespace Worker

/-- `TqCode`. -/
inductive TqCode where
  | notFound | operatorDenied | conflict | validation | queueOwnerDenied | version | backpressure | internal
  | capability | unavailable
  deriving DecidableEq, Repr

def TqCode.text : TqCode → String
  | .notFound => "TQ001"
  | .operatorDenied => "TQ403"
  | .conflict => "TQ409"
  | .validation => "TQ422"
  | .queueOwnerDenied => "TQ425"
  | .version => "TQ426"
  | .backpressure => "TQ429"
  | .internal => "TQ500"
  | .capability => "TQ501"
  | .unavailable => "TQ503"

/-- `TQ_ERROR_REGISTRY[code].retryable`. -/
def TqCode.retryable : TqCode → Bool
  | .backpressure | .internal | .unavailable => true
  | _ => false

/-- What the worker reads of an error that a call of its transport raises: a `TaskqError` with the `reason` of its
details and its hint, also the client's own `TaskqProtocolError`; a `TimeoutError` or `ConnectionError`; or any
other exception. -/
inductive Fault where
  | taskq (code : TqCode) (reason : Option String) (retryAfter : ℚ)
  | malformed
  | connection
  | other
  deriving DecidableEq

/-- `WorkerOptions`, the fields that the supervision of a job reads. -/
structure Options where
  concurrency : ℕ := 1
  cancelGraceSeconds : ℚ := 30
  settleMaxAttempts : ℕ := 5
  settleBackoffBase : ℚ := 1 / 4
  settleBackoffCap : ℚ := 5
  settleBackpressureMaxElapsed : ℚ := 120
  noHandlerDelaySeconds : ℤ := 60
  unsupportedPolicyDelaySeconds : ℤ := 60
  failOnShutdownDeadline : Bool := false

/-- `CommandName`, the commands that settle an attempt. -/
inductive Verb where
  | complete | fail | snooze | release | cancelRunning
  deriving DecidableEq, Repr

def Verb.text : Verb → String
  | .complete => "complete"
  | .fail => "fail"
  | .snooze => "snooze"
  | .release => "release"
  | .cancelRunning => "cancel_running"

/-- `COMMAND_SPECS[command].outcomes`. -/
def Verb.outcomes : Verb → List SettleOutcome
  | .fail => [.ok, .retryScheduled, .dead, .alreadySettled, .settleConflict, .lost]
  | _ => [.ok, .alreadySettled, .settleConflict, .lost]

/-- `CancellationReason`. -/
inductive CancellationReason where
  | shutdown | operator | leaseLost
  deriving DecidableEq, Repr

/-- `_CANCELLATION_PRIORITY`. -/
def CancellationReason.priority : CancellationReason → ℕ
  | .shutdown => 1
  | .operator => 2
  | .leaseLost => 3

/-- `CancellationToken.cancel`: a reason is only replaced by one of higher priority. -/
def cancelToken (current : Option CancellationReason) (reason : CancellationReason) : Option CancellationReason :=
  if current.any (fun c => reason.priority ≤ c.priority) then current else some reason

section Reports

/-- `JobRunState`, the states of a report. -/
inductive JobRunState where
  | settled | ownershipLost | abandonedSync | runtimeFailed
  deriving DecidableEq, Repr

/-- `JobRunOutcome`. -/
inductive JobRunOutcome where
  | settled | noHandler | ownershipLost | settleConflict | settlementUnknown | followupRejected | runtimeError
  | unsupportedContinuationPolicy
  deriving DecidableEq, Repr

/-- The text of a `SettleOutcome`. -/
def outcomeText : SettleOutcome → String
  | .ok => "ok"
  | .retryScheduled => "retry_scheduled"
  | .dead => "dead"
  | .alreadySettled => "already_settled"
  | .settleConflict => "settle_conflict"
  | .lost => "lost"

/-- `JobRunReport`. The field `settlement_outcome` has the type `str`, so what is stored there is the plain text of
the outcome. -/
structure JobRunReport where
  jobId : Uuid
  state : JobRunState
  outcome : JobRunOutcome
  settlementCommand : Option String := none
  settlementOutcome : Option String := none
  settlementErrorCode : Option String := none
  cancellationReason : Option CancellationReason := none
  requiresProcessExit : Bool := false
  fatal : Bool := false
  deriving DecidableEq

/-- `_runtime_failure`. -/
def runtimeFailure (jobId : Uuid) (command : Verb) : JobRunReport where
  jobId := jobId
  state := .runtimeFailed
  outcome := .runtimeError
  settlementCommand := some command.text
  fatal := true

/-- `_report_from_settle`. -/
def reportFromSettle (jobId : Uuid) (command : Verb) (result : SettleOutcome) : JobRunReport :=
  match result with
  | .lost => ⟨jobId, .ownershipLost, .ownershipLost, command.text, outcomeText result, none, none, false, false⟩
  | .settleConflict =>
    ⟨jobId, .runtimeFailed, .settleConflict, command.text, outcomeText result, none, none, false, true⟩
  | _ => ⟨jobId, .settled, .settled, command.text, outcomeText result, none, none, false, false⟩

/-- The report of `_settle_with_retry` when it gives up. -/
def settlementUnknown (jobId : Uuid) (command : Verb) (lastErrorCode : Option String) : JobRunReport where
  jobId := jobId
  state := .runtimeFailed
  outcome := .settlementUnknown
  settlementCommand := some command.text
  settlementErrorCode := lastErrorCode
  fatal := true

/-- The report of `_settle_invalid_followup` once the failure is settled. -/
def followupRejected (jobId : Uuid) (capabilitySkew : Bool) (failed : JobRunReport) : JobRunReport where
  jobId := jobId
  state := if capabilitySkew then .runtimeFailed else .settled
  outcome := .followupRejected
  settlementCommand := some Verb.fail.text
  settlementOutcome := failed.settlementOutcome
  fatal := capabilitySkew

end Reports

/-- `_heartbeat_interval`. -/
def heartbeatInterval (leaseSeconds : ℤ) : ℚ := min ((leaseSeconds : ℚ) / 3) 30

/-- `_lease_budget`: the longest that a job may run without a confirmed heartbeat send. -/
def leaseBudget (leaseSeconds : ℤ) : ℚ := leaseSeconds - min 60 ((leaseSeconds : ℚ) / 4)

end Worker
end Taskq
