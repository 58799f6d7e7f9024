import Taskq.Contract.Handling
import Taskq.Model.Evaluator

/-! The scheduler engine inside the runtime: every round of the housekeeper ticks, claims a batch of due schedules and makes
one call for each claim, while other clients go on. -/
namespace Taskq
namespace Scheduler
open Relational

section Engine

/-- `type(exc).__name__`. -/
def typeName : EvaluationError → String
  | .validation _ => "TaskqValidationError"
  | .badDate => "CroniterBadDateError"
  | .zeroDivision => "ZeroDivisionError"

/-- `SchedulerEngine`, with the libraries and the offset hash that it evaluates with. -/
structure SchedulerEngine where
  libraries : Libraries
  smearOffsetSeconds : Uuid → Option ℤ → ℤ
  workerId : String
  claimLimit : ℤ
  leaseSeconds : ℤ
  errorRetrySeconds : ℤ

/-- The call of `process_batch` for a claim: its occurrences are fired, or the failure of the calendar is recorded. -/
def SchedulerEngine.callFor (engine : SchedulerEngine) (claim : ClaimedSchedule) : Command :=
  match evaluateClaim engine.libraries claim (engine.smearOffsetSeconds claim.scheduleId claim.smearSeconds) with
  | .error exc => .scheduleError ⟨claim.scheduleId, claim.token, claim.definitionVersion, "calendar:" ++ typeName exc,
      some engine.errorRetrySeconds, true⟩
  | .ok evaluation => .fireSchedule (evaluation.fireArgs claim)

/-- A batch of `process_batch`: its claims, the calls that were made for them, and the claim whose call was rejected. The
surroundings and the tables that the claim saw are a record that nothing reads. -/
structure Batch where
  env : Env
  seen : Db
  claims : List ClaimedSchedule
  called : List (ClaimedSchedule × Command)
  rejected : Option (ClaimedSchedule × SqlError)

end Engine

section Runtime

/-- `TaskqRuntimeState`. -/
inductive RuntimeState where
  | constructed | starting | running | degraded | stopping | stopped | failed
  deriving DecidableEq, Repr

/-- Where the housekeeper is: before its next round, between the tick and the claim, with claims that are left, or returned. -/
inductive Phase where
  | sleeping
  | claiming
  | working (left : List ClaimedSchedule) (batch : Batch)
  | returned

/-- What `TaskqRuntime` keeps of its housekeeper. -/
structure TaskqRuntime where
  state : RuntimeState
  housekeeperHealthy : Bool
  housekeeperFailures : ℕ
  stopRequested : Bool

/-- The code of the `TaskqError` that the transport raises for what the server rejects. -/
def errorCode (e : SqlError) : Worker.TqCode := Worker.TqCode.ofState e.state

/-- `isinstance(exc, TaskqVersionError) or not exc.retryable`. -/
def fatal (e : SqlError) : Bool := errorCode e = .version || !(errorCode e).retryable

/-- How `_tick` ends, and what `start` or `_housekeeper_loop` makes of that. -/
def TaskqRuntime.ticked (r : TaskqRuntime) : Option SqlError → TaskqRuntime × Phase
  | none => ({ r with
      state := if r.state = .starting ∨ ¬r.housekeeperHealthy ∧ r.state = .degraded then .running else r.state
      housekeeperHealthy := true }, .sleeping)
  | some e =>
    let r := { r with housekeeperFailures := r.housekeeperFailures + 1, housekeeperHealthy := false }
    if fatal e then ({ r with state := .failed, stopRequested := true }, .returned)
    else ({ r with state := .degraded }, .sleeping)

/-- A server and the runtime that keeps house for it. The batches that are over and the errors of a tick or of a claim are a
record that nothing reads. -/
structure World where
  server : System
  runtime : TaskqRuntime
  phase : Phase
  batches : List Batch
  faults : List SqlError

/-- A runtime that starts: its first round is part of the start. -/
def World.starting (server : System) : World := ⟨server, ⟨.starting, false, 0, false⟩, .sleeping, [], []⟩

def World.ended (w : World) (rejected : Option SqlError) : World :=
  { w with runtime := (w.runtime.ticked rejected).1, phase := (w.runtime.ticked rejected).2 }

/-- A call of the housekeeper committed. -/
def World.committed (w : World) (env : Env) (db : Db) (phase : Phase) : World :=
  { w with server := ⟨db, env.now, env.xid, w.server.admitted ++ newJobs w.server.db db⟩, phase := phase }

/-- One stretch of the housekeeper: it makes its next call and goes on with the answer. -/
def World.advance (engine : SchedulerEngine) (reapLimit : ℤ) (env : Env) (w : World) : World :=
  match w.phase with
  | .returned => w
  | .sleeping =>
    if w.runtime.stopRequested then { w with phase := .returned }
    else match (Command.tick (some reapLimit)).exec env w.server.db with
      | .ok db => w.committed env db .claiming
      | .error e => { w with faults := w.faults ++ [e] }.ended (some e)
  | .claiming =>
    match claimSchedules env (some engine.workerId) (some engine.claimLimit) (some engine.leaseSeconds) w.server.db with
    | .ok (claims, db) => w.committed env db (.working claims ⟨env, w.server.db, claims, [], none⟩)
    | .error e => { w with faults := w.faults ++ [e] }.ended (some e)
  | .working [] batch => { w with batches := w.batches ++ [batch] }.ended none
  | .working (claim :: left) batch =>
    let batch := { batch with called := batch.called ++ [(claim, engine.callFor claim)] }
    match (engine.callFor claim).exec env w.server.db with
    | .ok db => w.committed env db (.working left batch)
    | .error e => { w with batches := w.batches ++ [{ batch with rejected := some (claim, e) }] }.ended (some e)

/-- A call of another client, or a stretch of the housekeeper. -/
inductive World.Step (site : Site) (engine : SchedulerEngine) (reapLimit : ℤ) (w : World) : World → Prop
  | other {env : Env} {command : Command} {u : System} (step : System.Step site env command w.server u) :
      World.Step site engine reapLimit w { w with server := u }
  | housekeeper {env : Env} (server : env.toSite = site) (fresh : w.server.xid < env.xid) :
      World.Step site engine reapLimit w (w.advance engine reapLimit env)

/-- Any number of steps. -/
def World.Run (site : Site) (engine : SchedulerEngine) (reapLimit : ℤ) : World → World → Prop :=
  Relation.ReflTransGen (World.Step site engine reapLimit)

/-- Steps played one after another: calls of other clients, and stretches of the housekeeper. -/
def World.play (site : Site) (engine : SchedulerEngine) (reapLimit : ℤ) :
    List (Time × Option Command) → World → Option World
  | [], w => some w
  | (now, none) :: moves, w =>
    World.play site engine reapLimit moves (w.advance engine reapLimit (.alone site now (w.server.xid + 1)))
  | (now, some command) :: moves, w =>
    match command.exec (.alone site now (w.server.xid + 1)) w.server.db with
    | .ok db => World.play site engine reapLimit moves
        { w with server := ⟨db, now, w.server.xid + 1, w.server.admitted ++ newJobs w.server.db db⟩ }
    | .error _ => none

variable {site : Site} {engine : SchedulerEngine} {reapLimit : ℤ}

theorem World.play_run {moves : List (Time × Option Command)} {w w' : World}
    (played : World.play site engine reapLimit moves w = some w') : World.Run site engine reapLimit w w' := by
  induction moves generalizing w with
  | nil =>
    cases played
    exact .refl
  | cons move moves ih =>
    obtain ⟨now, command⟩ := move
    cases command with
    | none => exact .head (.housekeeper rfl (Nat.lt_succ_self _)) (ih played)
    | some command =>
      rw [World.play] at played
      cases run : command.exec (.alone site now (w.server.xid + 1)) w.server.db with
      | error e =>
        rw [run] at played
        cases played
      | ok db =>
        rw [run] at played
        exact .head (.other (.commit rfl (Nat.lt_succ_self _) run)) (ih played)

end Runtime

end Scheduler
end Taskq
