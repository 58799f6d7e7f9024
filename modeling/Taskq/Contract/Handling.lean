import Taskq.Contract.Replay
import Taskq.Worker.Heartbeat
import Taskq.Worker.Outputs

/-! One claimed job with everything that its handler says: the supervision of the job next to its heartbeat loop, and a
healthy server for which the attempt is the worker's. -/
namespace Taskq

/-- The checks that a settlement function makes of its parameters. -/
def Settlement.fits (c : Settlement) : Bool :=
  workerOk c.worker &&
    match c.verb with
    | .complete result _ followups | .completeWithPolicy result _ followups _ =>
      withinBytes 8192 result && followups.all (·.kind = .array)
    | .fail _ _ retryAfter progress _ =>
      retryAfter.all (fun n => 0 ≤ n ∧ n ≤ 2592000) && withinBytes 2048 progress
    | .snooze delay _ progress => delay.any (fun n => 0 ≤ n ∧ n ≤ 2592000) && withinBytes 2048 progress
    | .release cause delay _ => cause.any releaseCauses.contains && delay.any fun n => 0 ≤ n ∧ n ≤ 86400
    | .cancelRunning _ => true

namespace Worker

section Parameters

/-- The reasons that the transport reads from an error. -/
def continuationSafeReasons : List String :=
  ["continuation_parent_not_member", "continuation_policy_mismatch", "continuation_policy_required",
    "continuation_queue_undeclared", "reserved_idempotency_namespace", "workflow_member_limit_exceeded"]

/-- The code of an SQLSTATE; every other state of the server is an internal error. -/
def TqCode.ofState : SqlState → TqCode
  | .tq001 => .notFound
  | .tq403 => .operatorDenied
  | .tq409 => .conflict
  | .tq422 => .validation
  | .tq425 => .queueOwnerDenied
  | .tq429 => .backpressure
  | .tq501 => .capability
  | _ => .internal

/-- `taskq_error_from_exception` and `_continuation_reason`. -/
def Fault.ofSql (e : SqlError) : Fault :=
  let reason := (e.detail.bind (·.fieldText? "reason")).filter continuationSafeReasons.contains
  match TqCode.ofState e.state with
  | .validation => .taskq .validation reason 0
  | .conflict => .taskq .conflict reason 0
  | code => .taskq code none 0

/-- The database rejects a parameter before the function runs. -/
def uncast : Fault := .taskq .internal none 0

/-- `_json_param`, which is called outside the transport's own error handling, and the cast to `jsonb`. -/
def jsonParam : PyValue → Except Fault (Option Jsonb)
  | .none => .ok none
  | value =>
    match dumps value, document value with
    | none, _ => .error .other
    | _, none => .error uncast
    | _, some d => .ok (some d)

def textArgument (s : PyStr) : Except Fault (Option String) :=
  match textParam s with
  | some text => .ok (some text)
  | none => .error uncast

/-- The call of the SQL function, with its parameters cast. -/
def Operation.verb : Operation → Except Fault SettleVerb
  | .complete result policyHash => do
    let result ← jsonParam result
    return match policyHash with
      | none => .complete result none (some (.arr []))
      | some witness => .completeWithPolicy result none (some (.arr [])) (some witness)
  | .fail error retryable retryAfterSeconds progress => do
    let progress ← jsonParam progress
    let error ← textArgument error
    return .fail error (some retryable) (retryAfterSeconds.map (·.1)) progress none
  | .snooze delaySeconds reason progress => do
    let progress ← jsonParam progress
    let reason ← (match reason with
      | some reason => textArgument reason
      | none => .ok none)
    return .snooze (some delaySeconds.1) reason progress
  | .release cause delaySeconds progress => do
    let progress ← jsonParam progress
    return .release (some cause) (some delaySeconds) progress
  | .cancelRunning reason => do
    let reason ← textArgument reason
    return .cancelRunning reason

end Parameters

section Job

/-- A claimed job and its task in the registry; the progress is `None` or a dictionary. -/
structure Assignment where
  jobId : Uuid
  attemptId : Uuid
  leaseSeconds : ℤ
  claimedAt : ℚ
  progress : PyValue
  policyHash : Option String
  /-- `task.retry` is not false. -/
  retry : Bool

/-- The supervision of a job with its contents. `sent` is a record that no function reads: the calls that the
settlement made. -/
structure HandledJob where
  task : JobTask
  /-- The context's progress. -/
  progress : PyValue
  loop : Option (HeartbeatLoop PyValue) := none
  /-- How the handler ended, once the task has seen it. -/
  output : Option HandlerOutput := none
  payloadError : PyStr := []
  operation : Option Operation := none
  sent : List Operation := []

variable (o : Options) (worker : String) (a : Assignment)

/-- The job has just been taken over. -/
def HandledJob.submitted : HandledJob := ⟨.submitted a.jobId a.leaseSeconds, a.progress, none, none, [], none, []⟩

/-- What a settlement calls. -/
def HandledJob.operationOf (j : HandledJob) (control : Option RunControl) (s : Settling) : Operation :=
  match s.purpose with
  | .noHandler => .release "no_handler" o.noHandlerDelaySeconds a.progress
  | .unsupportedPolicy => .release "released" o.unsupportedPolicyDelaySeconds a.progress
  | .invalidPayload =>
    (HandlerResult.nonRetryable (py "invalid_payload: " ++ j.payloadError) .none).operation a.policyHash a.progress
  | .prestart => withdrawal s.loop.command a.progress
  | .external => withdrawal s.loop.command j.progress
  | .handled =>
    match j.output.bind fun output => control.bind fun c => output.resolve a.retry c with
    | some (some result) => result.operation a.policyHash j.progress
    | _ => withdrawal s.loop.command j.progress
  | .rejected => .fail (py "invalid_followup: rejected by active worker or SQL contract") false none j.progress

/-- The task has taken a step. A settlement's call is fixed when it first calls. -/
def HandledJob.moved (j : HandledJob) (t : JobTask) : HandledJob :=
  match t.stage with
  | .settling s =>
    if s.phase = .entering then { j with task := t }
    else
      let operation := j.operation.getD (j.operationOf o a t.control s)
      { j with
        task := t
        operation := some operation
        sent := if t.sent = j.task.sent then j.sent else j.sent ++ [operation] }
  | _ => { j with task := t }

/-- The cancellation from outside ends the wait for the handler. -/
def HandledJob.interrupted (j : HandledJob) : HandledJob :=
  match j.task.stage with
  | .handling => { j with output := some .cancelled }
  | _ => j

/-- The loop has declared the ownership lost. -/
def HeartbeatLoop.gaveUp {P : Type} (l : HeartbeatLoop P) : Bool :=
  match l.beat with
  | .lost => true
  | _ => false

/-- The loop has taken a step, and tells the task. -/
def HandledJob.heard (j : HandledJob) (l l' : HeartbeatLoop PyValue) (event : BeatEvent PyValue) : HandledJob :=
  let denied : Bool := match event with
    | .answered false _ => true
    | _ => false
  let cancels : Bool := match event with
    | .answered true true => true
    | _ => false
  let task :=
    if l'.gaveUp && !l.gaveUp then
      { j.task.loseOwnership l'.runtimeFailed with disowned := j.task.disowned || denied }
    else if cancels then j.task.requestOperatorCancel
    else j.task
  { j with loop := some l', task := task }

end Job

section Server

variable (worker : String) (a : Assignment)

/-- The attempt runs the job, for this worker. -/
def Assignment.Owned (db : Db) : Prop :=
  ∃ job, runningJob db.toCore a.jobId a.attemptId = some job ∧ job.workerId = some worker

/-- How a healthy server that owns the attempt answers a settlement's call: it runs the function, which raises only when
a parameter does not pass its checks. -/
inductive Operation.Answered (operation : Operation) : JobEvent → Prop
  | returned {env : Env} {db db' : Db} {verb : SettleVerb} {answer : SettleResult} (cast : operation.verb = .ok verb)
      (owned : a.Owned worker db)
      (run : (Settlement.mk a.jobId a.attemptId (some worker) verb).run env db = .ok (answer, db')) :
    Operation.Answered operation (.answered answer.outcome)
  | refused {env : Env} {db : Db} {verb : SettleVerb} {e : SqlError} {jitter : ℚ} (cast : operation.verb = .ok verb)
      (owned : a.Owned worker db) (unfit : (Settlement.mk a.jobId a.attemptId (some worker) verb).fits = false)
      (run : (Settlement.mk a.jobId a.attemptId (some worker) verb).run env db = .error e) :
    Operation.Answered operation (.failed (.ofSql e) jitter)
  | uncast {fault : Fault} {jitter : ℚ} (failed : operation.verb = .error fault) :
    Operation.Answered operation (.failed fault jitter)

/-- The progress that a heartbeat carries. -/
def carriedProgress (pending : Option (ℕ × PyValue)) : PyValue := (pending.map (·.2)).getD .none

/-- How such a server answers a heartbeat; after the settlement has been sent, the attempt may be over. -/
inductive Assignment.Beats (settling : Prop) (pending : Option (ℕ × PyValue)) : BeatEvent PyValue → Prop
  | returned {env : Env} {db db' : Db} {progress : Option Jsonb} {answer : BeatResult}
      (cast : jsonParam (carriedProgress pending) = .ok progress) (owned : settling ∨ a.Owned worker db)
      (run : heartbeat env a.jobId a.attemptId (some worker) (some a.leaseSeconds) progress none db =
        .ok (answer, db')) :
    Assignment.Beats settling pending (.answered answer.ok answer.cancelRequested)
  | refused {env : Env} {db : Db} {progress : Option Jsonb} {e : SqlError}
      (cast : jsonParam (carriedProgress pending) = .ok progress) (owned : settling ∨ a.Owned worker db)
      (unfit : ¬withinBytes 2048 progress)
      (run : heartbeat env a.jobId a.attemptId (some worker) (some a.leaseSeconds) progress none db = .error e) :
    Assignment.Beats settling pending (.failed (.ofSql e))
  -- the transport's own error handling covers the encoding of a heartbeat
  | uncast {fault : Fault} (failed : jsonParam (carriedProgress pending) = .error fault) :
    Assignment.Beats settling pending (.failed uncast)

end Server

section Steps

/-- What the handler, or the start of its task, says in a step. -/
inductive Said where
  | quiet
  | invalidPayload (error : PyStr)
  | startRaises
  | checkpoint (progress : PyValue)
  | output (output : HandlerOutput)

/-- The events of a task that say nothing, and that neither the server nor the heartbeat loop brings about. -/
def JobEvent.own : JobEvent → Bool
  | .recover | .awaited | .wake | .graceExpired | .blocking _ | .softStop | .deadline => true
  | _ => false

/-- The events of a heartbeat loop that are not the server's. -/
def BeatEvent.own {P : Type} : BeatEvent P → Bool
  | .wake | .expired | .unwound | .stray => true
  | _ => false

variable (o : Options) (worker : String) (a : Assignment) (stopping deadlineReached : Bool) (now : ℚ)

/-- One step of a job, next to a healthy server that owns its attempt. -/
inductive HandledJob.Step (j : HandledJob) : Said → HandledJob → Prop
  /-- The task starts without a handler, as does one that follows a task that ended before its first step. -/
  | start {preparation : Preparation} {t : JobTask}
      (idle : preparation = .unsupportedPolicy ∨ preparation = .noHandler)
      (step : j.task.step o stopping deadlineReached now (.start preparation) = some t) :
    HandledJob.Step j .quiet (j.moved o a t)
  | invalidPayload {error : PyStr} {t : JobTask}
      (step : j.task.step o stopping deadlineReached now (.start .invalidPayload) = some t) :
    HandledJob.Step j (.invalidPayload error) (HandledJob.moved o a { j with payloadError := error } t)
  /-- The start raises, as it does when the context does not take the claimed progress. -/
  | startRaises {t : JobTask} (step : j.task.step o stopping deadlineReached now (.start .raises) = some t) :
    HandledJob.Step j .startRaises (j.moved o a t)
  | ready {isSync : Bool} {t : JobTask} (fresh : j.task.recovery = false)
      (taken : a.progress = .none ∨ checkpointCopy a.progress = some a.progress)
      (step : j.task.step o stopping deadlineReached now (.start (.ready isSync)) = some t) :
    HandledJob.Step j .quiet (HandledJob.moved o a
      { j with loop := some (HeartbeatLoop.started a.leaseSeconds a.claimedAt now) } t)
  | checkpoint {progress copied : PyValue} {l l' : HeartbeatLoop PyValue} (there : j.loop = some l)
      (accepted : checkpointCopy progress = some copied) (step : l.step now (.stage copied) = some l') :
    HandledJob.Step j (.checkpoint progress) { j with progress := copied, loop := some l' }
  | ended {output : HandlerOutput} {t : JobTask} (handling : j.task.stage = .handling)
      (step : j.task.step o stopping deadlineReached now (.handlerEnded (output.ended a.retry)) = some t) :
    HandledJob.Step j (.output output) (HandledJob.moved o a { j with output := some output } t)
  /-- The handler ends after the task has stopped to wait for it. -/
  | endedLate {ended : HandlerEnd} {t : JobTask} (left : j.task.stage ≠ .handling)
      (step : j.task.step o stopping deadlineReached now (.handlerEnded ended) = some t) :
    HandledJob.Step j .quiet (j.moved o a t)
  /-- The task is cancelled from outside. -/
  | cancel {t : JobTask} (step : j.task.step o stopping deadlineReached now .cancel = some t) :
    HandledJob.Step j .quiet (j.interrupted.moved o a t)
  | act {event : JobEvent} {t : JobTask} (own : event.own = true)
      (step : j.task.step o stopping deadlineReached now event = some t) :
    HandledJob.Step j .quiet (j.moved o a t)
  | answered {operation : Operation} {event : JobEvent} {t : JobTask} (there : j.operation = some operation)
      (answer : operation.Answered worker a event)
      (step : j.task.step o stopping deadlineReached now event = some t) :
    HandledJob.Step j .quiet (j.moved o a t)
  | beat {l l' : HeartbeatLoop PyValue} {event : BeatEvent PyValue} (there : j.loop = some l)
      (own : event.own = true) (step : l.step now event = some l') :
    HandledJob.Step j .quiet (j.heard l l' event)
  | beatAnswered {l l' : HeartbeatLoop PyValue} {event : BeatEvent PyValue} {sent expires : ℚ}
      {pending : Option (ℕ × PyValue)} (there : j.loop = some l) (calling : l.beat = .calling sent expires pending)
      (answer : a.Beats worker (j.task.sent ≠ []) pending event) (step : l.step now event = some l') :
    HandledJob.Step j .quiet (j.heard l l' event)
  /-- The loop is cancelled once the settlement is over. -/
  | beatEnds {l l' : HeartbeatLoop PyValue} (there : j.loop = some l)
      (over' : j.task.control.any (·.settlementTerminal) = true) (step : l.step now .settled = some l') :
    HandledJob.Step j .quiet { j with loop := some l' }

/-- The runs of a job in which all that is said satisfies a condition. -/
inductive HandledJob.Run (fine : Said → Prop) : HandledJob → Prop
  | start : HandledJob.Run fine (.submitted a)
  | step {j k : HandledJob} {said : Said} {stopping deadlineReached : Bool} {now : ℚ}
      (run : HandledJob.Run fine j) (said' : fine said)
      (step : HandledJob.Step o worker a stopping deadlineReached now j said k) : HandledJob.Run fine k

end Steps

end Worker
end Taskq
