import Taskq.Worker.Settlement

/-! The supervision of one claimed job, from await to await: what happens to the task, to its handler and to its
heartbeat loop in any order that the event loop allows. -/
namespace Taskq
namespace Worker

section Handler

/-- What `_execute_job` finds before it starts a handler; it lets an exception of the payload's model, of the context
or of the handler's start escape. -/
inductive Preparation where
  | unsupportedPolicy | noHandler | invalidPayload
  | ready (isSync : Bool)
  | raises
  deriving DecidableEq

/-- What `_normalize_handler_result` makes of a returned value: an intent, or an exception that is caught, or one
that escapes. -/
inductive Normalized where
  | intent (i : Intent)
  | invalidFollowup | invalidResult | raises
  deriving DecidableEq

/-- How the future of a handler ends. -/
inductive HandlerEnd where
  | returned (value : Normalized)
  | taskCancelled
  | cancelled
  | raised (retry : Bool)
  deriving DecidableEq

/-- `_normalize_handler_result`; a cancelled handler has been turned into `TaskCancelled` before. -/
def normalizeHandlerResult : HandlerEnd → Normalized
  | .returned value => value
  | .taskCancelled | .cancelled => .intent .cancel
  | .raised retry => .intent (if retry then .retry else .nonRetryable)

/-- The error of the handler is `TaskCancelled`. -/
def HandlerEnd.isTaskCancelled : HandlerEnd → Bool
  | .taskCancelled | .cancelled => true
  | _ => false

/-- What `_execute_job` settles after its handler: an intent, or a followup that the registry rejects. -/
inductive Resolved where
  | settle (intent : Option Intent)
  | reject
  | raises
  deriving DecidableEq

/-- The intent after the handler, under the reason for which the job was cancelled, if it was. -/
def resolveIntent (c : RunControl) (ended : HandlerEnd) : Resolved :=
  match normalizeHandlerResult ended with
  | .raises => .raises
  | .invalidFollowup => .reject
  | normalized =>
    if c.reason = some .operator then .settle (some .cancel)
    else if c.reason = some .shutdown ∧ (ended.isTaskCancelled ∨ c.shutdownDeadline) then .settle none
    else
      match normalized with
      | .intent i => .settle (some i)
      | _ => .settle (some .nonRetryable)

end Handler

section Task

/-- Why an attempt is settled. -/
inductive Purpose where
  | noHandler | unsupportedPolicy | invalidPayload | prestart | handled | external | rejected
  deriving DecidableEq

inductive Phase where
  | entering | calling
  | sleeping (wakeOnStop : Bool)
  deriving DecidableEq

/-- A settlement under way. -/
structure Settling where
  purpose : Purpose
  intent : Option Intent
  reason : Option CancellationReason
  /-- The loop fails a job whose completion was rejected; whether for a skew of capabilities. -/
  fallback : Option Bool
  loop : Attempting
  phase : Phase

/-- How the task of a job ends. -/
inductive TaskEnd where
  | report (r : JobRunReport)
  | cancelled | raised
  deriving DecidableEq

/-- Where the task stands: before its first step, cancelled before it, or at which await. -/
inductive Stage where
  | created
  | cancelledEarly
  | handling
  | draining
  | gracing (ended : HandlerEnd)
  | dropping
  | settling (s : Settling)
  | closing (ended : TaskEnd)
  | ended (ended : TaskEnd)

/-- The task of one claimed job. `sent`, `refused` and `disowned` are records that no function reads: the calls of
settlement verbs, the error for which a completion with followups was given up, and that the server denied the
ownership of the attempt. -/
structure JobTask where
  jobId : Uuid
  leaseSeconds : ℤ
  /-- The task releases a job whose own task was cancelled before its first step. -/
  recovery : Bool := false
  control : Option RunControl := none
  /-- The handler's future is done. -/
  handlerDone : Bool := false
  /-- A function that the handler runs in a thread is not finished. -/
  blocking : Bool := false
  stage : Stage := .created
  /-- The task has called `_begin_soft_stop`. -/
  stops : Bool := false
  sent : List Verb := []
  refused : Option Fault := none
  disowned : Bool := false

variable (o : Options) (stopping deadlineReached : Bool)

def JobTask.withControl (t : JobTask) (f : RunControl → RunControl) : JobTask :=
  { t with control := t.control.map f }

/-- `_mark_blocking_unsafe`. -/
def JobTask.markBlockingUnsafe (t : JobTask) (c : RunControl) : RunControl :=
  if t.blocking then { c with abandonedSync := true } else c

/-- `_enforce_shutdown_deadline`, with a handler that has been started. -/
def JobTask.enforceShutdownDeadline (t : JobTask) : JobTask :=
  t.withControl fun c =>
    let c := c.cancel .shutdown
    if !c.isSync && !t.handlerDone then { t.markBlockingUnsafe c with shutdownDeadline := true } else c

/-- `_lose_ownership`. -/
def JobTask.loseOwnership (t : JobTask) (runtimeFailed : Bool) : JobTask :=
  t.withControl fun c =>
    let c := { c.cancel .leaseLost with ownershipLost := true, runtimeFailed := c.runtimeFailed || runtimeFailed }
    if c.isSync then (if t.handlerDone then c else { c with abandonedSync := true })
    else t.markBlockingUnsafe c

/-- `_request_operator_cancel`. -/
def JobTask.requestOperatorCancel (t : JobTask) : JobTask :=
  t.withControl fun c => { c.cancel .operator with operatorGrace := true }

/-- `_operator_grace`, after the grace period. -/
def JobTask.graceExpired (t : JobTask) : JobTask :=
  t.withControl fun c => if !c.isSync && !t.handlerDone then t.markBlockingUnsafe c else c

/-- The task is over; a fatal report stops the intake of jobs. -/
def JobTask.finish (t : JobTask) (ended : TaskEnd) : JobTask :=
  let fatal : Bool := match ended with
    | .report r => r.fatal
    | _ => false
  { t with stage := .ended ended, stops := t.stops || fatal }

/-- Leave the supervision with a settlement that is over: the heartbeat loop is cancelled and awaited. -/
def JobTask.close (t : JobTask) (ended : TaskEnd) : JobTask :=
  { t.withControl fun c => { c with settlementTerminal := true } with stage := .closing ended }

/-- A settlement ends with a report. -/
def JobTask.settled (t : JobTask) (s : Settling) (r : JobRunReport) : JobTask :=
  match s.purpose with
  | .noHandler => t.finish (.report (if r.state = .settled then { r with outcome := .noHandler } else r))
  | .unsupportedPolicy =>
    JobTask.finish { t with stops := true }
      (.report (if r.state = .settled then { r with outcome := .unsupportedContinuationPolicy } else r))
  | .invalidPayload => t.finish (.report r)
  | .prestart => t.finish .cancelled
  | .handled | .rejected => t.close (.report r)
  | .external => t.close .cancelled

/-- The report that the caller of the loop makes of the report of the loop. -/
def Settling.conclude (s : Settling) (r : JobRunReport) : JobRunReport :=
  let r := match s.fallback with
    | some skew => if r.state = .settled then followupRejected r.jobId skew r else r
    | none => r
  if s.purpose = .handled ∨ s.purpose = .external ∨ s.purpose = .invalidPayload then
    { r with cancellationReason := s.reason } else r

/-- The top of the loop of `_settle_with_retry`: the verb is called unless ownership has been lost. -/
def JobTask.attempt (t : JobTask) (s : Settling) : JobTask :=
  let loop := { s.loop with attempt := s.loop.attempt + 1 }
  match t.control with
  | some c =>
    if c.ownershipLost then t.settled s (s.conclude (ownershipLostReport t.jobId c))
    else { t with stage := .settling { s with loop := loop, phase := .calling }, sent := t.sent ++ [loop.command] }
  | none => { t with stage := .settling { s with loop := loop, phase := .calling }, sent := t.sent ++ [loop.command] }

/-- Start a settlement. -/
def JobTask.settle (t : JobTask) (purpose : Purpose) (intent : Option Intent) (reason : Option CancellationReason)
    (command : Verb) (fallback : Option Bool) (now : ℚ) : JobTask :=
  let t := t.withControl fun c => { c with settling := true }
  let s : Settling := ⟨purpose, intent, reason, fallback, ⟨command, now, 0, none, false⟩, .entering⟩
  -- after an external cancellation the settlement is a shielded task of its own
  if purpose = .external then { t with stage := .settling s } else t.attempt s

/-- `_settle_invalid_followup`. -/
def JobTask.settleInvalidFollowup (t : JobTask) (purpose : Purpose) (intent : Option Intent)
    (reason : Option CancellationReason) (capabilitySkew : Bool) (now : ℚ) : JobTask :=
  t.settle purpose intent reason .fail (some capabilitySkew) now

/-- The verb raised an error that the loop hands to its caller. -/
def JobTask.rejected (t : JobTask) (s : Settling) (fault : Fault) (now : ℚ) : JobTask :=
  let failure := runtimeFailure t.jobId s.loop.command
  match s.fallback with
  | some _ =>
    t.settled s (if s.purpose = .handled then { failure with cancellationReason := s.reason } else failure)
  | none =>
    match invalidFollowup s.intent fault with
    | some skew =>
      JobTask.settleInvalidFollowup { t with refused := some fault } s.purpose s.intent s.reason skew now
    | none => t.settled s failure

/-- What follows the end of the handler and of the operator's grace. -/
def JobTask.afterGrace (t : JobTask) (c : RunControl) (ended : HandlerEnd) (now : ℚ) : JobTask :=
  if c.ownershipLost then { t with stage := .dropping }
  else if c.externalCancelled then t.settle .external none (some .shutdown) (intentVerb o (some c) none) none now
  else
    match resolveIntent c ended with
    | .raises => t.finish .raised
    | .reject => t.settleInvalidFollowup .rejected none none false now
    | .settle intent => t.settle .handled intent c.reason (intentVerb o (some c) intent) none now

/-- What follows the await of the handler. -/
def JobTask.afterHandler (t : JobTask) (c : RunControl) (ended : HandlerEnd) (now : ℚ) : JobTask :=
  if c.operatorGrace then { t with stage := .gracing ended } else t.afterGrace o c ended now

/-- Nobody has said why the await of the handler is cancelled. -/
def RunControl.unexplained (c : RunControl) : Bool := c.reason.isNone && !c.shutdownDeadline && !c.ownershipLost

/-- The await of the handler is cancelled: from outside, or because the handler was. -/
def JobTask.cancelHandling (t : JobTask) (c : RunControl) (now : ℚ) : JobTask :=
  if c.unexplained then
    let c := { c with externalCancelled := true }.cancel .shutdown
    let c := if !c.isSync && !t.handlerDone then t.markBlockingUnsafe c else c
    { t with control := some c, stage := .draining, stops := true }
  else t.afterHandler o c .cancelled now

end Task

section Step

/-- What happens to a job's task. -/
inductive JobEvent where
  /-- The task takes its first step. -/
  | start (preparation : Preparation)
  /-- A task that ended before its first step is followed by one that releases the job. -/
  | recover
  /-- The handler's future ends. -/
  | handlerEnded (ended : HandlerEnd)
  /-- The cancelled handler, grace period or heartbeat loop that the task awaits is over. -/
  | awaited
  /-- The verb that the task awaits returns or raises. -/
  | answered (result : SettleOutcome)
  | failed (fault : Fault) (jitter : ℚ)
  /-- The backoff before the next call of the verb is over, or cut short. -/
  | wake
  /-- The task is cancelled from outside. -/
  | cancel
  /-- The heartbeat loop gives the job up: the server said that the attempt is not owned, or it did not say. -/
  | lose (confirmed runtimeFailed : Bool)
  | operatorCancel | graceExpired
  | blocking (unfinished : Bool)
  /-- The supervisor stops taking jobs, or its deadline is reached. -/
  | softStop | deadline
  deriving DecidableEq

variable (o : Options) (stopping deadlineReached : Bool) (now : ℚ)

/-- The first step of the task. -/
def JobTask.start (t : JobTask) : Preparation → JobTask
  | .unsupportedPolicy => t.settle .unsupportedPolicy none none .release none now
  | .noHandler => t.settle .noHandler none none .release none now
  | .invalidPayload => t.settle .invalidPayload (some .nonRetryable) none .fail none now
  | .raises => t.finish .raised
  | .ready isSync =>
    let control : RunControl := { isSync := isSync, leaseSeconds := t.leaseSeconds }
    let control := if stopping then control.cancel .shutdown else control
    let t := { t with control := some control, stage := .handling }
    if deadlineReached then t.enforceShutdownDeadline else t

/-- `_release_prestart_cancellation`. -/
def JobTask.releasePrestart (t : JobTask) : JobTask :=
  JobTask.settle { t with stops := true } .prestart none (some .shutdown) .release none now

/-- The verb's call returns or raises. -/
def JobTask.answer (t : JobTask) (s : Settling) : JobEvent → Option JobTask
  | .answered result => some (t.settled s (s.conclude (s.loop.answered t.jobId result)))
  | .failed fault jitter =>
    match s.loop.raised o t.jobId t.control stopping fault now jitter with
    | .report r => some (t.settled s (s.conclude r))
    | .raised fault => some (t.rejected s fault now)
    | .sleep _ wakeOnStop loop => some { t with stage := .settling { s with loop := loop, phase := .sleeping wakeOnStop } }
  | _ => none

/-- A cancellation from outside reaches the task at its await. A task that has not started ends; the shielded
settlement goes on. -/
def JobTask.cancelled (t : JobTask) : Option JobTask :=
  match t.stage with
  | .created => some { t with stage := .cancelledEarly }
  | .handling => t.control.map fun c => t.cancelHandling o c now
  | .draining | .gracing _ | .dropping | .closing _ => some (t.finish .cancelled)
  | .settling s =>
    match s.purpose with
    | .external => some t
    | .handled | .rejected => some (t.close .cancelled)
    | _ => some (t.finish .cancelled)
  | .cancelledEarly | .ended _ => none

/-- The awaited cancellation of a helper task or of the handler is over. -/
def JobTask.resume (t : JobTask) : Option JobTask :=
  match t.stage, t.control with
  | .draining, some c => if t.handlerDone then some (t.afterHandler o c .cancelled now) else none
  | .gracing ended, some c => some (t.afterGrace o c ended now)
  | .dropping, some c => some (t.finish (.report (ownershipLostReport t.jobId c)))
  | .closing ended, _ => some (t.finish ended)
  | .settling s, _ =>
    if s.phase = .entering then some (t.attempt { s with loop := { s.loop with startedAt := now } }) else none
  | _, _ => none

/-- One step of a job's task; none when the event cannot happen there. -/
def JobTask.step (event : JobEvent) (t : JobTask) : Option JobTask :=
  match event with
  | .start preparation =>
    match t.stage with
    | .created =>
      some (if t.recovery then t.releasePrestart now else t.start stopping deadlineReached now preparation)
    | _ => none
  | .recover =>
    match t.stage with
    | .cancelledEarly => if t.recovery then none else some { t with stage := .created, recovery := true }
    | _ => none
  | .handlerEnded ended =>
    match t.stage, t.control with
    | .handling, some c =>
      let t := { t with handlerDone := true }
      some (if ended = .cancelled then t.cancelHandling o c now else t.afterHandler o c ended now)
    | .created, _ | .cancelledEarly, _ | _, none => none
    | _, some _ => some { t with handlerDone := true }
  | .awaited => t.resume o now
  | .answered _ | .failed _ _ =>
    match t.stage with
    | .settling s => if s.phase = .calling then t.answer o stopping now s event else none
    | _ => none
  | .wake =>
    match t.stage with
    | .settling s =>
      match s.phase with
      | .sleeping _ => some (t.attempt s)
      | _ => none
    | _ => none
  | .cancel => t.cancelled o now
  | .lose confirmed runtimeFailed =>
    if t.control.isSome then some { t.loseOwnership runtimeFailed with disowned := t.disowned || confirmed } else none
  | .operatorCancel => if t.control.isSome then some t.requestOperatorCancel else none
  | .graceExpired => if t.control.any (·.operatorGrace) then some t.graceExpired else none
  | .blocking unfinished => some { t with blocking := unfinished }
  | .softStop => some (t.withControl (·.cancel .shutdown))
  | .deadline => some t.enforceShutdownDeadline

/-- A job that the supervisor has just taken over. -/
def JobTask.submitted (jobId : Uuid) (leaseSeconds : ℤ) : JobTask := { jobId := jobId, leaseSeconds := leaseSeconds }

end Step

end Worker
end Taskq
