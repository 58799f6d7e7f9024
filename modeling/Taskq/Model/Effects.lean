import Taskq.Model.System

/-! Host-effect fences: a host locks the row of a job, writes next to it and commits. The transactions of hosts run
among the calls; a row lock is held to the end of its transaction, and nothing else writes the row until then. -/
namespace Taskq
open Relational

section Fences

/-- `^[a-z0-9][a-z0-9_]{0,56}$`. -/
def isFencedQueue (s : String) : Bool :=
  match s.toList with
  | [] => false
  | c :: cs => isLowerAlnum c && cs.length ≤ 56 && cs.all fun d => isLowerAlnum d || d = '_'

/-- The arguments of `lock_active_effect_attempt`. -/
structure ActiveArgs where
  jobId : Option Uuid
  attemptId : Option Uuid
  workerId : Option String
  queue : Option String
  jobType : Option String

def ActiveArgs.check (a : ActiveArgs) : Call Unit := do
  ensure (a.jobId.isSome ∧ a.attemptId.isSome) (tq422 "job_id and attempt_id are required")
  ensure (workerOk a.workerId) workerRequired
  ensure (a.queue.any isFencedQueue) (tq422 "invalid queue name")
  ensure (jobTypeOk a.jobType) (tq422 "job_type required (<=120 chars)")

/-- The row of a job qualifies, by the wall clock of the server. -/
def ActiveArgs.admits (a : ActiveArgs) (clock : Time) (r : JobRow) : Bool :=
  r.status = .running && r.currentAttemptId = a.attemptId && r.workerId = a.workerId && a.queue = some r.queue &&
    a.jobType = some r.jobType && r.leaseExpiresAt.any (clock < ·) && r.cancelRequestedAt.isNone

/-- The arguments of `lock_terminal_effect_job`. -/
structure TerminalArgs where
  jobId : Option Uuid
  queue : Option String
  jobType : Option String
  expectedEnvironment : Option String
  expectedInstallationId : Option Uuid
  allowProduction : Option Bool

/-- The row of `target_identity`; an installation that is not bound yet has the environment `unbound`. -/
structure TargetIdentity where
  environment : String
  installationId : Option Uuid

/-- `^[a-z0-9][a-z0-9_-]{0,62}$`. -/
def isEnvironmentName (s : String) : Bool :=
  match s.toList with
  | [] => false
  | c :: cs => isLowerAlnum c && cs.length ≤ 62 && cs.all fun d => isLowerAlnum d || d = '_' || d = '-'

/-- `attest_target`. -/
def attestTarget (identity : TargetIdentity) (environment : Option String) (installation : Option Uuid)
    (allowProduction : Option Bool) : Call Unit := do
  ensure (environment.any isEnvironmentName ∧ allowProduction.isSome) (tq422 "invalid target expectation")
  ensure (identity.environment ≠ "unbound") (.because .tq422 "taskq target is unbound" "target_unbound")
  ensure (environment = some identity.environment)
    (.because .tq422 "taskq target environment mismatch" "environment_mismatch")
  ensure (installation.isNone ∨ installation = identity.installationId)
    (.because .tq422 "taskq target installation mismatch" "installation_mismatch")
  ensure (identity.environment ≠ "production" ∨ allowProduction = some true)
    (.because .tq422 "production target requires explicit permission" "production_not_allowed")
  ensure (identity.environment ≠ "production" ∨ installation.isSome)
    (.because .tq422 "production target requires an installation pin" "production_pin_required")

def TerminalArgs.check (env : Env) (identity : TargetIdentity) (a : TerminalArgs) (db : Db) : Call Unit := do
  ensure (a.jobId.isSome ∧ a.expectedInstallationId.isSome) (tq422 "job_id and expected_installation_id are required")
  ensure (a.queue.any isFencedQueue ∧ jobTypeOk a.jobType) (tq422 "valid queue and job_type are required")
  checkAdmissionOwner env (a.queue.getD "") db
  attestTarget identity a.expectedEnvironment a.expectedInstallationId a.allowProduction

def TerminalArgs.admits (a : TerminalArgs) (r : JobRow) : Bool :=
  a.queue = some r.queue && a.jobType = some r.jobType && r.status.terminal

/-- The live counts of a workflow's members, by their own rows. -/
def liveCounts (db : Db) (w : Uuid) : MemberCounts :=
  let members (status : JobStatus) : ℤ := db.jobs.count fun _ j => j.workflowId = some w ∧ j.status = status
  { blocked := members .blocked, queued := members .queued, running := members .running
    succeeded := members .succeeded, failed := members .failed, cancelled := members .cancelled
    admittedTotal := none }

inductive Fence where
  | active (a : ActiveArgs)
  | terminal (a : TerminalArgs)

/-- The row that a fence returns. -/
inductive EffectRow where
  | active (payload : Jsonb) (workflowId : Option Uuid) (workflowCounts : Option MemberCounts)
  | terminal (status : JobStatus) (outcome : Option String) (finishedAt : Option Time) (payload : Jsonb)
      (workflowId : Option Uuid)

namespace Fence

def jobId : Fence → Option Uuid
  | active a => a.jobId
  | terminal a => a.jobId

/-- What a fence raises before it looks for the job. -/
def check (env : Env) (identity : TargetIdentity) (db : Db) : Fence → Call Unit
  | active a => a.check
  | terminal a => a.check env identity db

/-- The predicate under which a fence locks a row, and which it checks again after it has waited. -/
def admits (clock : Time) (r : JobRow) : Fence → Bool
  | active a => a.admits clock r
  | terminal a => a.admits r

/-- The job that a fence finds in its snapshot. -/
def finds (clock : Time) (db : Db) (f : Fence) : Option (Uuid × Job) :=
  f.jobId.bind fun id => (db.jobs.get? id).bind fun job => if f.admits clock job.toJobRow then some (id, job) else none

/-- The answer: the row as it is locked, and counts by the snapshot of the statement. -/
def answer (snapshot : Db) (r : JobRow) : Fence → EffectRow
  | active _ => .active r.payload r.workflowId (r.workflowId.map (liveCounts snapshot))
  | terminal _ => .terminal r.status r.outcome r.finishedAt r.payload r.workflowId

end Fence

/-- `lock_active_effect_attempt` where no other transaction comes between. -/
def lockActiveEffectAttempt (clock : Time) (a : ActiveArgs) (db : Db) : Call (Option EffectRow) := do
  a.check
  .ok (((Fence.active a).finds clock db).map fun found => (Fence.active a).answer db found.2.toJobRow)

/-- `lock_terminal_effect_job` where no other transaction comes between. -/
def lockTerminalEffectJob (env : Env) (identity : TargetIdentity) (a : TerminalArgs) (db : Db) :
    Call (Option EffectRow) := do
  a.check env identity db
  .ok (((Fence.terminal a).finds env.now db).map fun found => (Fence.terminal a).answer db found.2.toJobRow)

def Fence.lock (env : Env) (identity : TargetIdentity) (clock : Time) (db : Db) : Fence → Call (Option EffectRow)
  | .active a => lockActiveEffectAttempt clock a db
  | .terminal a => lockTerminalEffectJob env identity a db

end Fences

section Hosts

/-- Where the transaction of a host is. -/
inductive HostPhase where
  | idle
  /-- Its fence has found a row in its snapshot and asks for the lock. -/
  | waiting (fence : Fence) (clock : Time) (snapshot : Db) (id : Uuid) (found : Job)
  | holding (fence : Fence) (id : Uuid) (wrote : Bool)

/-- What the transactions leave, in the order of their commits and answers. -/
inductive HostEntry where
  | call (before after : Db)
  /-- A fence returned no row, by the clock and the state that it judged. -/
  | refused (fence : Fence) (clock : Time) (db : Db)
  | granted (fence : Fence) (clock : Time) (db : Db) (row : EffectRow)
  /-- A host committed what it wrote under a fence. -/
  | effect (fence : Fence)

/-- An installation and the hosts that use its fences. -/
structure Hosts (ι : Type) where
  system : System
  host : ι → HostPhase
  /-- Nothing reads this. -/
  log : List HostEntry

variable {ι : Type} [DecidableEq ι]

def Hosts.installed (site : Site) (now : Time) : Hosts ι := ⟨.installed site now, fun _ => .idle, []⟩

def Hosts.put (s : Hosts ι) (i : ι) (phase : HostPhase) (entries : List HostEntry) : Hosts ι :=
  { s with host := Function.update s.host i phase, log := s.log ++ entries }

/-- Some host has the row of the job locked. -/
def Hosts.Held (s : Hosts ι) (id : Uuid) : Prop := ∃ i fence wrote, s.host i = .holding fence id wrote

inductive HostEvent (ι : Type) where
  | call (env : Env) (command : Command)
  | fence (i : ι) (env : Env) (identity : TargetIdentity) (fence : Fence) (clock : Time)
  /-- The lock of the row is free; the row may have a newer version than the snapshot's. -/
  | lock (i : ι) (clock : Time) (newer : Bool)
  | write (i : ι)
  | commit (i : ι)
  | rollback (i : ι)

/-- One step. A call commits only when no host has a row locked that it writes; one that skips locked rows does not
write them. A fence judges the row in its snapshot, and the newest version of the row when there is one. -/
inductive Hosts.Step (site : Site) (s : Hosts ι) : HostEvent ι → Hosts ι → Prop
  | call {env : Env} {command : Command} {t : System} (step : System.Step site env command s.system t)
      (waits : ∀ id, s.Held id → t.db.jobs.get? id = s.system.db.jobs.get? id) :
      Hosts.Step site s (.call env command)
        { s with system := t, log := s.log ++ [.call s.system.db t.db] }
  | raised {i : ι} {env : Env} {identity : TargetIdentity} {f : Fence} {clock : Time} {e : SqlError}
      (idle : s.host i = .idle) (raises : f.check env identity s.system.db = .error e) :
      Hosts.Step site s (.fence i env identity f clock) (s.put i .idle [.refused f clock s.system.db])
  | missed {i : ι} {env : Env} {identity : TargetIdentity} {f : Fence} {clock : Time}
      (idle : s.host i = .idle) (passes : f.check env identity s.system.db = .ok ())
      (misses : f.finds clock s.system.db = none) :
      Hosts.Step site s (.fence i env identity f clock) (s.put i .idle [.refused f clock s.system.db])
  | found {i : ι} {env : Env} {identity : TargetIdentity} {f : Fence} {clock : Time} {id : Uuid} {job : Job}
      (idle : s.host i = .idle) (passes : f.check env identity s.system.db = .ok ())
      (finds : f.finds clock s.system.db = some (id, job)) :
      Hosts.Step site s (.fence i env identity f clock) (s.put i (.waiting f clock s.system.db id job) [])
  | same {i : ι} {f : Fence} {asked clock : Time} {snapshot : Db} {id : Uuid} {job : Job}
      (waiting : s.host i = .waiting f asked snapshot id job) (free : ¬s.Held id)
      (kept : s.system.db.jobs.get? id = some job) :
      Hosts.Step site s (.lock i clock false)
        (s.put i (.holding f id false) [.granted f asked s.system.db (f.answer snapshot job.toJobRow)])
  | newer {i : ι} {f : Fence} {asked clock : Time} {snapshot : Db} {id : Uuid} {seen job : Job}
      (waiting : s.host i = .waiting f asked snapshot id seen) (free : ¬s.Held id)
      (stored : s.system.db.jobs.get? id = some job) (admits : f.admits clock job.toJobRow = true) :
      Hosts.Step site s (.lock i clock true)
        (s.put i (.holding f id false) [.granted f clock s.system.db (f.answer snapshot job.toJobRow)])
  | lost {i : ι} {f : Fence} {asked clock : Time} {snapshot : Db} {id : Uuid} {seen : Job}
      (waiting : s.host i = .waiting f asked snapshot id seen) (free : ¬s.Held id)
      (gone : ∀ job, s.system.db.jobs.get? id = some job → f.admits clock job.toJobRow = false) :
      Hosts.Step site s (.lock i clock true) (s.put i .idle [.refused f clock s.system.db])
  | write {i : ι} {f : Fence} {id : Uuid} {wrote : Bool} (holding : s.host i = .holding f id wrote) :
      Hosts.Step site s (.write i) (s.put i (.holding f id true) [])
  | commit {i : ι} {f : Fence} {id : Uuid} {wrote : Bool} (holding : s.host i = .holding f id wrote) :
      Hosts.Step site s (.commit i) (s.put i .idle (if wrote then [.effect f] else []))
  | rollback {i : ι} (open' : s.host i ≠ .idle) : Hosts.Step site s (.rollback i) (s.put i .idle [])

/-- Calls and hosts in any order, from an installation on. -/
inductive Hosts.Run (site : Site) (permitted : Hosts ι → HostEvent ι → Prop) : Hosts ι → Prop
  | start (now : Time) : Hosts.Run site permitted (.installed site now)
  | step {s t : Hosts ι} {event : HostEvent ι} (before : Hosts.Run site permitted s) (allowed : permitted s event)
      (step : Hosts.Step site s event t) : Hosts.Run site permitted t

end Hosts

end Taskq
