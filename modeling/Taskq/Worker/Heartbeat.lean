import Taskq.Worker.Settlement

/-! The heartbeat loop of a running job, in exact time: its pace, its retries, the timer around each call, and the
checkpoints that it sends. -/
namespace Taskq
namespace Worker

/-- The error may be retried: `error.retryable`, a `TimeoutError` or a `ConnectionError`. -/
def Fault.retryable : Fault → Bool
  | .taskq code _ _ => code.retryable
  | .malformed => TqCode.internal.retryable
  | .connection => true
  | .other => false

section Checkpoints

variable {P : Type}

/-- The checkpoints that `JobContext` stages: the newest one that no heartbeat has flushed, and its number. -/
structure Checkpoints (P : Type) where
  generation : ℕ := 0
  pending : Option P := none

/-- `checkpoint_nowait`, with a checkpoint that passed its checks. -/
def Checkpoints.stage (progress : P) (c : Checkpoints P) : Checkpoints P := ⟨c.generation + 1, some progress⟩

/-- `_pending_checkpoint`. -/
def Checkpoints.snapshot (c : Checkpoints P) : Option (ℕ × P) := c.pending.map fun progress => (c.generation, progress)

/-- `_ack_checkpoint`. -/
def Checkpoints.ack (generation : ℕ) (c : Checkpoints P) : Checkpoints P :=
  if generation = c.generation then { c with pending := none } else c

end Checkpoints

section Loop

variable {P : Type}

/-- Where the loop stands: it sleeps, or awaits a heartbeat under a timer, or one that the timer has cancelled, or it
has declared the ownership lost, or the settlement has ended it. -/
inductive Beat (P : Type) where
  | sleeping (wakes : ℚ)
  | calling (sent expires : ℚ) (pending : Option (ℕ × P))
  | cancelling (fired : ℚ)
  | lost
  | ended

/-- The locals of `_heartbeat_loop`. The fields after `context` are records that no function reads: the time of the
last step, whether a heartbeat was confirmed, when the timer cancelled a call and when the ownership was declared lost,
the checkpoints that were staged, and those that a heartbeat carried, and carried to its confirmation. -/
structure HeartbeatLoop (P : Type) where
  leaseSeconds : ℤ
  lastOk : ℚ
  consecutiveFailures : ℕ := 0
  attempted : Bool := false
  beat : Beat P
  runtimeFailed : Bool := false
  cancelRequested : Bool := false
  context : Checkpoints P := {}
  clock : ℚ
  confirmed : Bool := false
  cancelledAt : Option ℚ := none
  lostAt : Option ℚ := none
  staged : List (ℕ × P) := []
  carried : List (ℕ × P) := []
  flushed : List (ℕ × P) := []

namespace HeartbeatLoop

def interval (s : HeartbeatLoop P) : ℚ := heartbeatInterval s.leaseSeconds

def budget (s : HeartbeatLoop P) : ℚ := leaseBudget s.leaseSeconds

/-- The loop is started, for a claim that was sent at `claimedAt`. -/
def started (leaseSeconds : ℤ) (claimedAt now : ℚ) : HeartbeatLoop P where
  leaseSeconds := leaseSeconds
  lastOk := claimedAt
  beat := .sleeping (now + max 0 (min (heartbeatInterval leaseSeconds) ((claimedAt + leaseBudget leaseSeconds - now) / 2)))
  clock := now

variable (now : ℚ)

/-- `_lose_ownership`. -/
def lose (s : HeartbeatLoop P) : HeartbeatLoop P := { s with beat := .lost, lostAt := some now }

/-- The head of the loop, up to its call. -/
def head (s : HeartbeatLoop P) : HeartbeatLoop P :=
  let remaining := s.lastOk + s.budget - now
  if s.attempted ∧ remaining ≤ 0 then s.lose now
  else
    -- the first heartbeat is not dropped on the clock alone
    let remaining := if s.attempted then remaining else max remaining s.interval
    let pending := s.context.snapshot
    { s with
      attempted := true
      beat := .calling now (now + max 0 remaining) pending
      carried := s.carried ++ pending.toList }

/-- The heartbeat that was sent at `sent` has failed with an error. -/
def failed (fault : Fault) (s : HeartbeatLoop P) : HeartbeatLoop P :=
  if fault.retryable then
    let failures := s.consecutiveFailures + 1
    { s with
      consecutiveFailures := failures
      beat := .sleeping (now + max 0 (min (min (1 / 4 * 2 ^ min (failures - 1) 10) s.interval)
        (s.lastOk + s.budget - now))) }
  else { s.lose now with runtimeFailed := true }

/-- The heartbeat that was sent at `sent` has returned. -/
def answered (sent : ℚ) (pending : Option (ℕ × P)) (ok cancelRequested : Bool) (s : HeartbeatLoop P) : HeartbeatLoop P :=
  if ok then
    { s with
      lastOk := sent
      consecutiveFailures := 0
      context := match pending with
        | some (generation, _) => s.context.ack generation
        | none => s.context
      cancelRequested := s.cancelRequested || cancelRequested
      beat := .sleeping (now + max 0 (s.interval - (now - sent)))
      confirmed := true
      flushed := s.flushed ++ pending.toList }
  else s.lose now

end HeartbeatLoop

/-- What happens to the loop. -/
inductive BeatEvent (P : Type) where
  /-- Its sleep is over. -/
  | wake
  /-- The heartbeat returns, or raises. -/
  | answered (ok cancelRequested : Bool)
  | failed (fault : Fault)
  /-- The timer cancels the call. -/
  | expired
  /-- The cancelled call ends, by raising the cancellation or by swallowing it. -/
  | unwound
  /-- The call raises a cancellation that is not the timer's. -/
  | stray
  /-- The handler stages a checkpoint. -/
  | stage (progress : P)
  /-- The settlement is over, and the loop is cancelled. -/
  | settled

/-- The timer for which the loop waits is due then. -/
def Beat.due : Beat P → Option ℚ
  | .sleeping wakes => some wakes
  | .calling _ expires _ => some expires
  | .cancelling _ | .lost | .ended => none

/-- One step of the loop; none when the event cannot happen there. Time does not go back, and does not pass over a
timer that is due. -/
def HeartbeatLoop.step (now : ℚ) (event : BeatEvent P) (s : HeartbeatLoop P) : Option (HeartbeatLoop P) :=
  if now < s.clock ∨ s.beat.due.any (· < now) then none
  else
    let s := { s with clock := now }
    match event, s.beat with
    | .wake, .sleeping wakes => if now = wakes then some (s.head now) else none
    | .answered ok cancelRequested, .calling sent _ pending => some (s.answered now sent pending ok cancelRequested)
    | .failed fault, .calling .. => some (s.failed now fault)
    | .expired, .calling _ expires _ => if now = expires then some { s with beat := .cancelling now, cancelledAt := some now } else none
    | .unwound, .cancelling _ => some (s.lose now)
    | .stray, .calling .. => some (s.lose now)
    | .stage progress, _ =>
      let context := s.context.stage progress
      some { s with context := context, staged := s.staged ++ [(context.generation, progress)] }
    | .settled, _ => some { s with beat := match s.beat with
        | .lost => .lost
        | _ => .ended }
    | _, _ => none

end Loop

end Worker
end Taskq
