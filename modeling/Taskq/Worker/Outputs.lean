import Taskq.Worker.JobTask
import Taskq.Worker.Values

/-! What a handler leaves behind, with its texts and documents, and the call of the transport that reports it. -/
namespace Taskq
namespace Worker

section Results

/-- A delay that a handler may ask for, in seconds. -/
abbrev Delay := { n : ℤ // 0 ≤ n ∧ n ≤ 2592000 }

/-- `HandlerResult`, with no followups. -/
inductive HandlerResult where
  | complete (result : PyValue)
  | snooze (delaySeconds : Delay) (progress : PyValue) (reason : Option PyStr)
  | cancel (reason : PyStr)
  | retry (afterSeconds : Option Delay) (error : Option PyStr) (progress : PyValue)
  | nonRetryable (error : PyStr) (progress : PyValue)

def HandlerResult.intent : HandlerResult → Intent
  | .complete _ => .complete false
  | .snooze .. => .snooze
  | .cancel _ => .cancel
  | .retry .. => .retry
  | .nonRetryable .. => .nonRetryable

/-- How a handler ends. `returned` carries the result that its output model has validated and dumped, `invalid` and
`raised` the text of the exception; `escapes` is an exception out of the validation that is not caught. -/
inductive HandlerOutput where
  | returned (result : HandlerResult)
  | invalid (error : PyStr)
  | escapes
  | raised (error : PyStr)
  | taskCancelled (reason : CancellationReason)
  | cancelled

/-- The output without its contents; the task says whether an exception is retried. -/
def HandlerOutput.ended (retry : Bool) : HandlerOutput → HandlerEnd
  | .returned result => .returned (.intent result.intent)
  | .invalid _ => .returned .invalidResult
  | .escapes => .returned .raises
  | .raised _ => .raised retry
  | .taskCancelled _ => .taskCancelled
  | .cancelled => .cancelled

/-- The value of a `CancellationReason`. -/
def CancellationReason.text : CancellationReason → String
  | .shutdown => "shutdown"
  | .operator => "operator"
  | .leaseLost => "lease_lost"

variable (retry : Bool) (c : RunControl)

/-- `_normalize_handler_result`, and what `_execute_job` makes of the exceptions that it catches. -/
def HandlerOutput.result : HandlerOutput → Option HandlerResult
  | .returned result => some result
  | .invalid error => some (.nonRetryable (py "invalid_handler_result: " ++ error) .none)
  | .escapes => none
  | .raised error => some (if retry then .retry none (some error) .none else .nonRetryable error .none)
  | .taskCancelled reason => some (.cancel (py reason.text))
  | .cancelled => some (.cancel (py (c.reason.getD .shutdown).text))

/-- The result that `_execute_job` settles, under the reason for which the job was cancelled, if it was; `some none`
releases the attempt. -/
def HandlerOutput.resolve (output : HandlerOutput) : Option (Option HandlerResult) :=
  (output.result retry c).map fun result =>
    if c.reason = some .operator then some (.cancel (py "operator_cancel_requested"))
    else if c.reason = some .shutdown ∧ ((output.ended retry).isTaskCancelled ∨ c.shutdownDeadline) then none
    else some result

variable {retry c}

/-- A caught exception of the validation counts as a result that fails the job. -/
theorem resolveIntent_of_normal {ended : HandlerEnd} {i : Intent}
    (normal : normalizeHandlerResult ended = .intent i ∨
      normalizeHandlerResult ended = .invalidResult ∧ i = .nonRetryable) :
    resolveIntent c ended =
      .settle (if c.reason = some .operator then some .cancel
        else if c.reason = some .shutdown ∧ (ended.isTaskCancelled ∨ c.shutdownDeadline) then none else some i) := by
  unfold resolveIntent
  obtain normal | ⟨normal, rfl⟩ := normal
  · simp only [normal]
    split_ifs <;> rfl
  · simp only [normal]
    split_ifs <;> rfl

theorem HandlerOutput.normal {output : HandlerOutput} {result : HandlerResult} (some' : output.result retry c = some result) :
    normalizeHandlerResult (output.ended retry) = .intent result.intent ∨
      normalizeHandlerResult (output.ended retry) = .invalidResult ∧ result.intent = .nonRetryable := by
  cases output with
  | escapes => cases some'
  | invalid =>
    cases some'
    exact .inr ⟨rfl, rfl⟩
  | raised =>
    cases some'
    cases retry <;> exact .inl rfl
  | _ =>
    cases some'
    exact .inl rfl

/-- The output chooses the verb as its end without contents does. -/
theorem HandlerOutput.resolveIntent_ended (output : HandlerOutput) :
    resolveIntent c (output.ended retry) =
      ((output.resolve retry c).map fun result => Resolved.settle (result.map HandlerResult.intent)).getD .raises := by
  unfold resolve
  cases found : output.result retry c with
  | none =>
    cases output with
    | escapes => rfl
    | _ => cases found
  | some result =>
    rw [resolveIntent_of_normal (normal found)]
    simp only [Option.map_some, Option.getD_some]
    split_ifs <;> rfl

end Results

section Operations

/-- The call of a settlement verb that a settlement repeats until it is answered. -/
inductive Operation where
  | complete (result : PyValue) (policyHash : Option String)
  | fail (error : PyStr) (retryable : Bool) (retryAfterSeconds : Option Delay) (progress : PyValue)
  | snooze (delaySeconds : Delay) (reason : Option PyStr) (progress : PyValue)
  | release (cause : String) (delaySeconds : ℤ) (progress : PyValue)
  | cancelRunning (reason : PyStr)

def Operation.command : Operation → Verb
  | .complete .. => .complete
  | .fail .. => .fail
  | .snooze .. => .snooze
  | .release .. => .release
  | .cancelRunning _ => .cancelRunning

/-- `_settle_intent` without a result: the attempt is given back. -/
def withdrawal (command : Verb) (progress : PyValue) : Operation :=
  if command = .fail then .fail (py "worker_shutdown_deadline") true none progress
  else .release "worker_shutdown" 0 progress

/-- `_settle_intent` with a result: a result that has no progress of its own sends the context's. -/
def HandlerResult.operation (policyHash : Option String) (progress : PyValue) : HandlerResult → Operation
  | .complete result => .complete result policyHash
  | .snooze delaySeconds own reason => .snooze delaySeconds reason (own.orElse progress)
  | .cancel reason => .cancelRunning reason
  | .retry afterSeconds error own =>
    -- an empty text counts as none
    let error := if error.getD [] = [] then py "handler requested retry" else error.getD []
    .fail error true afterSeconds (own.orElse progress)
  | .nonRetryable error own => .fail error false none (own.orElse progress)

theorem intentVerb_none (o : Options) (control : Option RunControl) :
    intentVerb o control none = .fail ∨ intentVerb o control none = .release := by
  unfold intentVerb
  split_ifs
  · exact .inl rfl
  · exact .inr rfl

theorem withdrawal_command {command : Verb} (back : command = .fail ∨ command = .release) (progress : PyValue) :
    (withdrawal command progress).command = command := by
  obtain rfl | rfl := back <;> rfl

theorem HandlerResult.operation_command (o : Options) (control : Option RunControl) (policyHash : Option String)
    (progress : PyValue) (result : HandlerResult) :
    (result.operation policyHash progress).command = intentVerb o control (some result.intent) := by
  cases result <;> rfl

end Operations

end Worker
end Taskq
