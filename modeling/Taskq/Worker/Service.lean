import Taskq.Worker.Supervisor

/-! The worker service: the claim loop, the callbacks of the jobs' tasks, and the stop, from await to await. -/
namespace Taskq
namespace Worker

/-- `WorkerServiceOptions`. -/
structure ServiceOptions where
  queues : List String
  batch : ℕ := 1
  pollInterval : ℚ := 5
  listen : Bool := true
  cancelInflightClaimOnStop : Bool := false
  pollJitter : ℚ := 1 / 5
  idlePollCap : ℚ := 60
  claimBackoffBase : ℚ := 1 / 4
  claimBackoffCap : ℚ := 30
  claimFatalThreshold : ℕ := 8
  unavailableFatalThreshold : Option ℕ := none
  pausedPollInterval : ℚ := 5
  nudgeQuietBase : ℚ := 1 / 20
  nudgeQuietCap : ℚ := 2
  adaptiveBatch : Bool := true

/-- `WorkerServiceState`. -/
inductive ServiceState where
  | constructed | starting | running | degraded | stopping | stopped | failed
  deriving DecidableEq, Repr

/-- `ClaimResult`, a state with the data that comes with it. -/
inductive ClaimResult where
  | claimed (jobs : List ClaimedJob)
  | empty
  | paused (retryAfterSeconds : Option ℤ)
  | throttled (retryAfterSeconds : Option ℤ)
  | unknownQueue | unavailable
  deriving DecidableEq

/-- `_last_wake`. -/
inductive Wake where
  | initial | stop | nudge | deadline
  deriving DecidableEq, Repr

/-- A claim in flight, with the locals of the sweep that made it: the queues that are still to come, and whether a
claim of the sweep got jobs. -/
structure Claiming where
  queue : String
  batch : ℕ
  claimedAt : ℚ
  rest : ℕ
  claimed : Bool

/-- The await at which the claim loop is. -/
inductive ClaimLoop where
  | absent
  | created
  | capacity
  | claiming (c : Claiming)
  | polling (generation : ℕ) (deadline : ℚ) (ignoreNudges : Bool)
  | deferring (expires : ℚ)
  | ended

/-- What `start` awaits. -/
inductive Startup where
  | idle | presence | listener | over
  deriving DecidableEq

/-- What the stop task of the service awaits. -/
inductive StopTask where
  | absent | created | claims | supervisor | over
  deriving DecidableEq

/-- `WorkerService`, less its counters and the times that only its snapshot reads. `received`, `fatalReports` and
`asked` are records that no function reads: the jobs of the claim responses, the fatal reports of which the service was
called back, and the generation of the nudges at the first claim of the last sweep, unless that claimed something. -/
structure Service where
  supervisor : Supervisor := {}
  state : ServiceState := .constructed
  startup : Startup := .idle
  stopTask : StopTask := .absent
  stopRequested : Bool := false
  cancelStopRequested : Bool := false
  admissionClosed : Bool := false
  fatalError : Bool := false
  listenerAttempted : Bool := false
  listenerConnected : Bool := false
  presenceHealthy : Bool := true
  claimLoop : ClaimLoop := .absent
  /-- `_nudge.generation`. -/
  generation : ℕ := 0
  queueIndex : ℕ := 0
  claimErrorStreaks : String → ℕ := fun _ => 0
  claimRetryAt : String → Option ℚ := fun _ => none
  idlePolls : ℕ := 0
  fruitlessNudges : ℕ := 0
  nudgeQuietUntil : ℚ := 0
  batchTarget : ℕ := 1
  lastWake : Wake := .initial
  received : List (Uuid × Uuid) := []
  fatalReports : List JobRunReport := []
  asked : Option ℕ := none

/-- What `_rng` gives for the delay of a queue and for the next poll, between 0 and 1. -/
structure Draws where
  retry : ℚ
  poll : ℚ

namespace Service

section Stop

def nudge (s : Service) : Service := { s with generation := s.generation + 1 }

/-- `_ensure_stop_task`. -/
def ensureStopTask (s : Service) : Service :=
  { s with stopTask := if s.stopTask = .absent then .created else s.stopTask }

/-- The stop is requested, with a nudge for whoever waits, and its task is there. -/
def requestStop (s : Service) : Service := { s with stopRequested := true }.nudge.ensureStopTask

/-- `_fail_service`. -/
def failService (s : Service) : Service := { s with fatalError := true, state := .failed }.requestStop

/-- `_refresh_running_state`. -/
def refreshRunningState (o : ServiceOptions) (s : Service) : Service :=
  match s.state with
  | .constructed | .stopping | .stopped | .failed => s
  | _ =>
    { s with state := if (o.listen && !s.listenerConnected) || !s.presenceHealthy then .degraded else .running }

/-- `_observe_job`, on a task that ended with a report. It reads the `value` of the settlement's outcome, which a plain
text does not have: the callback raises, and the event loop only logs it. -/
def observeReport (r : JobRunReport) (s : Service) : Service :=
  if r.fatal then
    match r.settlementOutcome with
    | some _ => s
    | none => s.failService
  else if r.outcome = .unsupportedContinuationPolicy then s.requestStop
  else s

/-- `_observe_job`. -/
def observeJob (ended : TaskEnd) (s : Service) : Service :=
  match ended with
  | .cancelled => s
  | .raised => s.failService
  | .report r => { s.observeReport r with fatalReports := s.fatalReports ++ (if r.fatal then [r] else []) }

end Stop

section Claims

variable (o : ServiceOptions) (w : Options) (now : ℚ) (draws : Draws)

/-- `_effective_batch`. -/
def effectiveBatch (s : Service) : ℕ := if o.adaptiveBatch then s.batchTarget else o.batch

/-- `_observe_claim_result`. -/
def observeClaimResult (got asked : ℕ) (s : Service) : Service :=
  if !o.adaptiveBatch then s
  else if asked ≤ got ∧ 0 < got then { s with batchTarget := min (s.batchTarget * 2) o.batch }
  else if got = 0 then { s with batchTarget := max 1 (s.batchTarget / 2) }
  else s

/-- A queue is not claimed again before `at'`. -/
def backOff (queue : String) (at' : ℚ) (s : Service) : Service :=
  { s with claimRetryAt := Function.update s.claimRetryAt queue (some at') }

/-- The queue waits for a later time. -/
def backingOff (queue : String) (s : Service) : Bool := (s.claimRetryAt queue).any (now < ·)

/-- The next claim of a sweep over so many more queues. -/
def nextClaim (claimed : Bool) : ℕ → Service → Service × Option Claiming
  | 0, s => (s, none)
  | rest + 1, s =>
    if s.stopRequested || s.supervisor.availableSlots w = 0 then (s, none)
    else
      let queue := o.queues.getD s.queueIndex ""
      let s := { s with queueIndex := (s.queueIndex + 1) % o.queues.length }
      if s.backingOff now queue then s.nextClaim claimed rest
      else (s, some ⟨queue, min (s.effectiveBatch o) (s.supervisor.availableSlots w), now, rest, claimed⟩)

/-- `_wait_for_poll_or_nudge`, up to its await. -/
def waitForPollOrNudge (s : Service) : Service :=
  let later := (o.queues.filterMap s.claimRetryAt).filter (now < ·)
  if 0 < o.queues.length ∧ o.queues.length = later.length then
    { s with claimLoop := .polling s.generation (now + max (1 / 100) ((later.min?).getD now - now)) true }
  else
    let delay :=
      if 0 < o.idlePollCap ∧ 0 < s.idlePolls ∧ s.listenerConnected then
        min (o.pollInterval * 2 ^ min s.idlePolls 16) (max o.idlePollCap o.pollInterval)
      else o.pollInterval
    let delay := if 0 < o.pollJitter then delay * (1 - o.pollJitter + 2 * o.pollJitter * draws.poll) else delay
    { s with claimLoop := .polling s.generation (now + delay) false }

/-- A sweep that claimed nothing ends; after one that made a claim, the wake that began it counts. -/
def unclaimed (swept : Bool) (s : Service) : Service :=
  let s :=
    if swept ∧ s.lastWake = .nudge then
      let fruitless := s.fruitlessNudges + 1
      { s with
        fruitlessNudges := fruitless
        nudgeQuietUntil := now + min (o.nudgeQuietBase * 2 ^ (fruitless - 1)) o.nudgeQuietCap }
    else if swept ∧ s.lastWake = .deadline ∧ s.listenerConnected then { s with idlePolls := s.idlePolls + 1 }
    else s
  s.waitForPollOrNudge o now draws

/-- A sweep over the queues. -/
def sweep (s : Service) : Service :=
  match s.nextClaim o w now false o.queues.length with
  | (s, some c) => { s with claimLoop := .claiming c, asked := some s.generation }
  | (s, none) => { s with asked := none }.unclaimed o now draws false

/-- The head of the claim loop. -/
def beginLoop (s : Service) : Service :=
  if s.stopRequested then { s with claimLoop := .ended }
  else if s.supervisor.availableSlots w = 0 then { s with claimLoop := .capacity }
  else s.sweep o w now draws

/-- The rest of the sweep after the claim `c`. -/
def resumeSweep (c : Claiming) (s : Service) : Service :=
  match s.nextClaim o w now c.claimed c.rest with
  | (s, some c) => { s with claimLoop := .claiming c }
  | (s, none) =>
    if c.claimed then
      let s := { s with idlePolls := 0, fruitlessNudges := 0, nudgeQuietUntil := 0, asked := none }
      if 0 < s.supervisor.availableSlots w then s.beginLoop o w now draws else s.waitForPollOrNudge o now draws
    else s.unclaimed o now draws true

/-- The claim loop ends with an exception. -/
def failLoop (s : Service) : Service := { s.failService with claimLoop := .ended }

/-- `_note_claim_error`. -/
def noteClaimError (queue : String) (code : TqCode) (s : Service) : Service :=
  let streak := s.claimErrorStreaks queue + 1
  let s := { s with claimErrorStreaks := Function.update s.claimErrorStreaks queue streak }
  let threshold := if code = .unavailable then o.unavailableFatalThreshold else some o.claimFatalThreshold
  if threshold.any (· ≤ streak) then s.failService
  else
    let delay := min (o.claimBackoffBase * 2 ^ min (streak - 1) 20) o.claimBackoffCap
    s.backOff queue (now + delay * (1 / 2 + draws.retry))

/-- The claim returned. -/
def claimAnswered (c : Claiming) (result : ClaimResult) (s : Service) : Service :=
  let s := { s with
    claimErrorStreaks := Function.update s.claimErrorStreaks c.queue 0
    claimRetryAt := Function.update s.claimRetryAt c.queue none }
  match result with
  | .claimed jobs =>
    let s := { s with received := s.received ++ jobs.map ClaimedJob.key }
    if c.batch < jobs.length then s.failLoop
    else
      let (supervisor, taken) := s.supervisor.submitAll w jobs
      let s := { s with supervisor := supervisor }
      if taken then (s.observeClaimResult o jobs.length c.batch).resumeSweep o w now draws { c with claimed := true }
      else s.failLoop
  | .empty => (s.observeClaimResult o 0 c.batch).resumeSweep o w now draws c
  | .throttled retryAfter =>
    let delay : ℚ := max 1 (retryAfter.getD 0) * (1 + 3 / 10 * draws.retry)
    (s.backOff c.queue (now + delay)).resumeSweep o w now draws c
  | .paused retryAfter =>
    let delay : ℚ := max o.pausedPollInterval (retryAfter.getD 0)
    let delay := if 0 < o.pollJitter then delay * (1 + o.pollJitter * draws.retry) else delay
    ((s.backOff c.queue (now + delay)).observeClaimResult o 0 c.batch).resumeSweep o w now draws c
  | .unknownQueue | .unavailable => s.failLoop

/-- The reasons for which the wait of the claim loop may be over. -/
def due (generation : ℕ) (deadline : ℚ) (ignoreNudges : Bool) (s : Service) : Wake → Bool
  | .initial => false
  | .stop => s.stopRequested
  | .nudge => !ignoreNudges && decide (s.generation ≠ generation)
  | .deadline => decide (deadline ≤ now)

/-- The claim loop is woken. -/
def polled (reason : Wake) (s : Service) : Service :=
  let expires := s.nudgeQuietUntil
  if reason = .nudge then
    let s := { s with idlePolls := 0 }
    if now < expires ∧ s.stopRequested = false then { s with claimLoop := .deferring expires }
    else { s with lastWake := reason }.beginLoop o w now draws
  else { s with lastWake := reason }.beginLoop o w now draws

end Claims

end Service

/-- What happens to the service. -/
inductive ServiceEvent where
  /-- `start` is called; its presence write, or a later one, returns. -/
  | start
  | presence (healthy shutdownRequested : Bool)
  /-- The listener connects, fails to, or is disconnected. -/
  | listener (connected : Bool)
  /-- The claim task takes its first step. -/
  | claims
  | capacity
  /-- The claim returns, raises a `TaskqError`, or raises another exception. -/
  | answered (result : ClaimResult)
  | refused (code : TqCode)
  | broken
  | polled (reason : Wake)
  | rested
  | nudge
  /-- The task of the job at a position takes a step; its end is observed. -/
  | job (i : ℕ) (event : JobEvent)
  | observe (i : ℕ)
  | stop (cancel : Bool)
  /-- The stop task of the service goes on. -/
  | stopping
  /-- The stop task of the supervisor reaches its deadline, or finishes. -/
  | deadline
  | stopped

section Step

variable (o : ServiceOptions) (w : Options) (now : ℚ) (draws : Draws)

/-- The presence write of `start` returns. -/
def Service.started (shutdownRequested : Bool) (s : Service) : Service :=
  if shutdownRequested then { s.ensureStopTask with stopRequested := true, startup := .over }
  -- the supervisor does not start once it is stopping
  else if s.supervisor.stopping || s.supervisor.stopped then { s with startup := .over }
  else
    let s := { s with supervisor := { s.supervisor with accepting := true } }
    if o.listen then { s with startup := .listener }
    else { s.refreshRunningState o with startup := .over, claimLoop := .created }

/-- The stop task of the service goes on from its await. -/
def Service.stopOn (s : Service) : Option Service :=
  let drain (s : Service) : Service :=
    { s with
      admissionClosed := true
      supervisor := s.supervisor.stop s.cancelStopRequested
      stopTask := .supervisor }
  match s.stopTask with
  | .created =>
    let s := { s with state := .stopping, stopRequested := true }.nudge
    match s.claimLoop with
    | .absent => some (drain s)
    | _ => some { s with
        claimLoop := if o.cancelInflightClaimOnStop then .ended else s.claimLoop
        stopTask := .claims }
  | .claims =>
    match s.claimLoop with
    | .ended => some (drain s)
    | _ => none
  | .supervisor =>
    if s.supervisor.stopped then some { s with state := .stopped, stopTask := .over, listenerConnected := false }
    else none
  | .absent | .over => none

/-- A job's task may be told to stop only by the supervisor. -/
def JobEvent.free : JobEvent → Bool
  | .softStop | .deadline => false
  | _ => true

/-- One step of the service; none when the event cannot happen there. -/
def Service.step (event : ServiceEvent) (s : Service) : Option Service :=
  match event with
  | .start => if s.state = .constructed then some { s with state := .starting, startup := .presence } else none
  | .presence healthy shutdownRequested =>
    let after := { s with presenceHealthy := healthy }.refreshRunningState o
    match s.startup with
    | .presence => some (after.started o shutdownRequested)
    | .over => some (if shutdownRequested then after.requestStop else after)
    | .idle | .listener => none
  | .listener connected =>
    let after := { s with listenerAttempted := true, listenerConnected := connected }
    let after := (if connected then after.nudge else after).refreshRunningState o
    match s.startup with
    | .listener => some { after with startup := .over, claimLoop := .created }
    | .over => some after
    | .idle | .presence => none
  | .claims =>
    match s.claimLoop with
    | .created => some (s.beginLoop o w now draws)
    | _ => none
  | .capacity =>
    match s.claimLoop with
    | .capacity =>
      if s.stopRequested then some { s with claimLoop := .ended }
      else if 0 < s.supervisor.freeSlots w ∨ s.supervisor.accepting = false then some (s.sweep o w now draws)
      else none
    | _ => none
  | .answered result =>
    match s.claimLoop with
    | .claiming c => some (s.claimAnswered o w now draws c result)
    | _ => none
  | .refused code =>
    match s.claimLoop with
    | .claiming c => some ((s.noteClaimError o now draws c.queue code).resumeSweep o w now draws c)
    | _ => none
  | .broken =>
    match s.claimLoop with
    | .claiming _ => some s.failLoop
    | _ => none
  | .polled reason =>
    match s.claimLoop with
    | .polling generation deadline ignoreNudges =>
      if s.due now generation deadline ignoreNudges reason then some (s.polled o w now draws reason) else none
    | _ => none
  | .rested =>
    match s.claimLoop with
    | .deferring expires =>
      if expires ≤ now ∨ s.stopRequested = true then some ({ s with lastWake := .nudge }.beginLoop o w now draws)
      else none
    | _ => none
  | .nudge => some s.nudge
  | .job i event =>
    if event.free then (s.supervisor.act w now i event).map fun supervisor => { s with supervisor := supervisor }
    else none
  | .observe i =>
    match s.supervisor.jobs[i]? with
    | some e =>
      match e.task.stage with
      | .ended ended =>
        if e.observed || e.task.recovery then none
        else
          let supervisor := { s.supervisor with jobs := s.supervisor.jobs.set i { e with observed := true } }
          some ({ s with supervisor := supervisor }.observeJob ended)
      | _ => none
    | none => none
  | .stop cancel =>
    if s.state = .constructed then some { s with state := .stopped }
    else
      let s := { s with cancelStopRequested := s.cancelStopRequested || cancel }
      some (if s.stopTask ≠ .absent ∧ cancel ∧ s.admissionClosed then
          { s with supervisor := s.supervisor.stop true }
        else s.ensureStopTask)
  | .stopping => s.stopOn o
  | .deadline =>
    if s.supervisor.stopTask && !s.supervisor.stopped then
      some { s with supervisor := s.supervisor.enforceAllShutdownDeadlines }
    else none
  | .stopped =>
    if s.supervisor.stopTask && s.supervisor.drained then
      some { s with supervisor := { s.supervisor with stopped := true } }
    else none

end Step

end Worker
end Taskq
