import Taskq.Worker.JobTask

/-! The supervisor of claimed jobs: its intake, the tasks that it runs, and its stop. -/
namespace Taskq
namespace Worker

/-- What the worker reads of a `ClaimedJob` to take the job over. -/
structure ClaimedJob where
  jobId : Uuid
  attemptId : Uuid
  leaseSeconds : ℤ
  deriving DecidableEq

def ClaimedJob.key (claim : ClaimedJob) : Uuid × Uuid := (claim.jobId, claim.attemptId)

/-- A job that the supervisor has taken over. `observed` says that the service has been called back at the end of the
job's task. -/
structure Supervising where
  key : Uuid × Uuid
  task : JobTask
  observed : Bool := false

def Stage.isEnded : Stage → Bool
  | .ended _ => true
  | _ => false

/-- The job is in `_active`: its task is not over, or was cancelled before its first step. -/
def Supervising.active (e : Supervising) : Bool := !e.task.stage.isEnded

/-- The end of the task creates the stop task of the supervisor. -/
def JobTask.stopsSupervisor (t : JobTask) : Bool :=
  match t.stage with
  | .ended ended =>
    t.recovery || t.control.any (·.externalCancelled) ||
      match ended with
      | .report r => r.fatal || decide (r.outcome = .unsupportedContinuationPolicy)
      | _ => false
  | _ => false

/-- `WorkerSupervisor`, the fields that its intake and its stop read. -/
structure Supervisor where
  accepting : Bool := false
  stopping : Bool := false
  deadlineReached : Bool := false
  /-- `_stop_task` has been created. -/
  stopTask : Bool := false
  stopped : Bool := false
  jobs : List Supervising := []

namespace Supervisor

/-- A change of the controls of all jobs. -/
def withTasks (s : Supervisor) (f : JobTask → JobTask) : Supervisor :=
  { s with jobs := s.jobs.map fun e => { e with task := f e.task } }

/-- `_begin_soft_stop`. -/
def beginSoftStop (s : Supervisor) : Supervisor :=
  { s.withTasks (·.withControl (·.cancel .shutdown)) with accepting := false, stopping := true }

/-- `_enforce_all_shutdown_deadlines`. -/
def enforceAllShutdownDeadlines (s : Supervisor) : Supervisor :=
  { s.withTasks (·.enforceShutdownDeadline) with deadlineReached := true }

/-- `stop`, up to its await. -/
def stop (cancel : Bool) (s : Supervisor) : Supervisor :=
  let s := s.beginSoftStop
  let s := if cancel then s.enforceAllShutdownDeadlines else s
  { s with stopTask := true }

def activeSlots (s : Supervisor) : ℕ := (s.jobs.filter (·.active)).length

variable (o : Options)

/-- `_free_slots`. -/
def freeSlots (s : Supervisor) : ℕ := o.concurrency - s.activeSlots

def availableSlots (s : Supervisor) : ℕ := if s.accepting then s.freeSlots o else 0

/-- `submit`; none where it raises. -/
def submit (claim : ClaimedJob) (s : Supervisor) : Option Supervisor :=
  if !s.accepting then none
  else if s.jobs.any fun e => e.active && decide (e.key = claim.key) then none
  else if s.freeSlots o = 0 then none
  else some { s with jobs := s.jobs ++ [⟨claim.key, .submitted claim.jobId claim.leaseSeconds, false⟩] }

/-- The jobs of a claim are submitted one after the other, up to the first that is refused; whether none was. -/
def submitAll : List ClaimedJob → Supervisor → Supervisor × Bool
  | [], s => (s, true)
  | claim :: rest, s =>
    match s.submit o claim with
    | none => (s, false)
    | some s => s.submitAll rest

/-- The task at position `i` takes a step; when it stops the intake, the other jobs are told. -/
def act (now : ℚ) (i : ℕ) (event : JobEvent) (s : Supervisor) : Option Supervisor :=
  match s.jobs[i]? with
  | none => none
  | some e =>
    (e.task.step o s.stopping s.deadlineReached now event).map fun t =>
      let after := { s with jobs := s.jobs.set i { e with task := t } }
      let after := if t.stops && !e.task.stops then after.beginSoftStop else after
      if t.stopsSupervisor then { after with stopTask := true } else after

/-- The stop task does not wait for tasks that release a job cancelled before its first step. -/
def drained (s : Supervisor) : Bool :=
  s.jobs.all fun e => !e.active || e.task.recovery || match e.task.stage with
    | .cancelledEarly => true
    | _ => false

end Supervisor

end Worker
end Taskq
