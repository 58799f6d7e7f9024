import Mathlib.Tactic.NormNum
import Taskq.Model.Claim
import Taskq.Model.Fire
import Taskq.Model.Operator

/-! The installation as a whole: every call that a producer, a worker, an operator or a scheduler can
make is one atomic step, taken in any order. What is said of the database clock is said of the runs: it may be
anything, or not go back. -/
namespace Taskq
open Relational

/-- The calls. -/
inductive Command where
  | enqueue (a : EnqueueArgs)
  | tryEnqueue (a : EnqueueArgs)
  | enqueueMany (queue : String) (jobs : Option Jsonb)
  | reserveAdmission (queue : String) (key intent : Option String) (handle : Option Uuid)
      (reservationTtl receiptTtl : Option ℤ)
  | finishAdmission (queue : String) (key : Option String) (handle : Option Uuid)
      (job receipt : Option Jsonb)
  | cancelAdmission (queue : String) (key : Option String) (handle : Option Uuid)
  | claimJobs (a : ClaimArgs)
  | claimJobsWithPolicies (a : ClaimArgs) (hashes : List String)
  | heartbeat (jobId attemptId : Uuid) (worker : Option String) (lease : Option ℤ)
      (progress stats : Option Jsonb)
  | completeJob (jobId attemptId : Uuid) (worker : Option String)
      (result stats followups : Option Jsonb)
  | completeJobWithPolicy (jobId attemptId : Uuid) (worker : Option String)
      (result stats followups : Option Jsonb) (policyHash : Option String)
  | failJob (jobId attemptId : Uuid) (worker error : Option String) (retryable : Option Bool)
      (retryAfter : Option ℤ) (progress stats : Option Jsonb)
  | snoozeJob (jobId attemptId : Uuid) (worker : Option String) (delay : Option ℤ)
      (reason : Option String) (progress : Option Jsonb)
  | releaseJob (jobId attemptId : Uuid) (worker cause : Option String) (delay : Option ℤ)
      (progress : Option Jsonb)
  | cancelRunningJob (jobId attemptId : Uuid) (worker reason : Option String)
  | cancelJob (id : Uuid) (actor reason : Option String)
  | purgeQueued (queue : String) (limit : Option ℤ) (actor reason : Option String)
  | expireJob (id : Uuid) (actor : Option String)
  | expireWorkerLeases (worker : Option String)
  | redriveJob (id : Uuid) (actor : Option String) (resetProgress : Bool)
  | redriveFailed (queue : String) (limit : Option ℤ) (actor : Option String) (smear : Option ℤ)
  | runNow (id : Uuid) (actor : Option String)
  | reprioritize (id : Uuid) (priority : Option ℤ) (actor : Option String)
  | reapExpired (limit : Option ℤ)
  | expireTtl (limit : Option ℤ)
  | finalizeCancelStragglers (limit : Option ℤ)
  | cancelDependents (id : Uuid) (reason : String) (limit : Option ℤ)
  | finalizeDepStragglers (limit : Option ℤ)
  | createWorkflow (key kind : Option String) (params : Option Jsonb) (queues : Option (List String))
      (actor : Option String)
  | createContinuationWorkflow (key kind : Option String) (params : Option Jsonb)
      (queues : Option (List String)) (actor : Option String) (limit : Option ℤ)
      (policy : Option String)
  | sealWorkflow (w : Uuid) (actor : Option String)
  | cancelWorkflow (w : Uuid) (actor reason : Option String)
  | advanceWorkflowCancellations (limit : Option ℤ)
  | finalizeWorkflows (limit : Option ℤ)
  | tick (reapLimit : Option ℤ)
  | janitor
  | ensureQueue (name : Option String) (profile : Option Jsonb)
  | pauseQueue (name : String) (reason : Option String)
  | resumeQueue (name : String)
  | setConcurrencyLimit (key : Option String) (maxRunning : Option ℤ)
  | setFlowLimit (key : Option String) (rate burst : Option ℤ)
  | setBreakerConfig (queue : String) (threshold cooldown successes : Option ℤ)
  | setBreakerRate (queue : String) (ratio : Option ℚ) (window volume : Option ℤ)
  | setBreakerLatency (queue : String) (threshold window volume : Option ℤ)
  | tripBreaker (queue : String)
  | forceCloseBreaker (queue : String)
  | setPriorityAging (queue : String) (aging : Option ℤ)
  | bindQueueAdmissionOwner (queue : String) (role : Option String)
  | adoptQueueAdmissionOwner (queue : String) (role actor reason : Option String)
  | rotateQueueAdmissionOwner (queue : String) (role actor reason : Option String)
  | putSchedule (name : Option String) (definition : Jsonb) (actor : Option String)
      (expected : Option ℤ)
  | putManagedSchedule (name : Option String) (definition : Jsonb) (m : Metadata)
      (actor : Option String) (expected : Option ℤ)
  | setScheduleState (name : String) (active : Bool) (expected : Option ℤ)
      (actor reason : Option String)
  | retireSchedule (name : String) (expected : Option ℤ) (actor : Option String)
  | setScheduleSmear (name : Option String) (smear : Option ℤ)
  | claimSchedules (worker : Option String) (limit lease : Option ℤ)
  | fireSchedule (a : FireArgs)
  | scheduleError (a : ErrorArgs)

/-- The state that a call leaves behind. -/
def Command.exec (env : Env) : Command → Db → Call Db
  | .enqueue a, db => (Taskq.enqueue env a db).map (·.2)
  | .tryEnqueue a, db => (Taskq.tryEnqueue env a db).map (·.2)
  | .enqueueMany queue jobs, db => (Taskq.enqueueMany env queue jobs db).map (·.2)
  | .reserveAdmission queue key intent handle reservationTtl receiptTtl, db =>
    (Taskq.reserveAdmission env queue key intent handle reservationTtl receiptTtl db).map (·.2)
  | .finishAdmission queue key handle job receipt, db =>
    (Taskq.finishAdmission env queue key handle job receipt db).map (·.2)
  | .cancelAdmission queue key handle, db =>
    (Taskq.cancelAdmission env queue key handle db).map (·.2)
  | .claimJobs a, db => (Taskq.claimJobs env a db).map (·.2)
  | .claimJobsWithPolicies a hashes, db => (Taskq.claimJobsWithPolicies env a hashes db).map (·.2)
  | .heartbeat jobId attemptId worker lease progress stats, db =>
    (Taskq.heartbeat env jobId attemptId worker lease progress stats db).map (·.2)
  | .completeJob jobId attemptId worker result stats followups, db =>
    (Taskq.completeJob env jobId attemptId worker result stats followups db).map (·.2)
  | .completeJobWithPolicy jobId attemptId worker result stats followups policyHash, db =>
    (Taskq.completeJobWithPolicy env jobId attemptId worker result stats followups policyHash db).map
      (·.2)
  | .failJob jobId attemptId worker error retryable retryAfter progress stats, db =>
    (Taskq.failJob env jobId attemptId worker error retryable retryAfter progress stats db).map (·.2)
  | .snoozeJob jobId attemptId worker delay reason progress, db =>
    (Taskq.snoozeJob env jobId attemptId worker delay reason progress db).map (·.2)
  | .releaseJob jobId attemptId worker cause delay progress, db =>
    (Taskq.releaseJob env jobId attemptId worker cause delay progress db).map (·.2)
  | .cancelRunningJob jobId attemptId worker reason, db =>
    (Taskq.cancelRunningJob env jobId attemptId worker reason db).map (·.2)
  | .cancelJob id actor reason, db => (Taskq.cancelJob env id actor reason db).map (·.2)
  | .purgeQueued queue limit actor reason, db =>
    (Taskq.purgeQueued env queue limit actor reason db).map (·.2)
  | .expireJob id actor, db => (Taskq.expireJob env id actor db).map (·.2)
  | .expireWorkerLeases worker, db => (Taskq.expireWorkerLeases env worker db).map (·.2)
  | .redriveJob id actor resetProgress, db => Taskq.redriveJob env id actor resetProgress db
  | .redriveFailed queue limit actor smear, db =>
    (Taskq.redriveFailed env queue limit actor smear db).map (·.2)
  | .runNow id actor, db => Taskq.runNow env id actor db
  | .reprioritize id priority actor, db => Taskq.reprioritize env id priority actor db
  | .reapExpired limit, db => (Taskq.reapExpired env limit db).map (·.2)
  | .expireTtl limit, db => (Taskq.expireTtl env limit db).map (·.2)
  | .finalizeCancelStragglers limit, db => (Taskq.finalizeCancelStragglers env limit db).map (·.2)
  | .cancelDependents id reason limit, db => (Taskq.cancelDependents env id reason limit db).map (·.2)
  | .finalizeDepStragglers limit, db => (Taskq.finalizeDepStragglers env limit db).map (·.2)
  | .createWorkflow key kind params queues actor, db =>
    (Taskq.createWorkflow env key kind params queues actor db).map (·.2)
  | .createContinuationWorkflow key kind params queues actor limit policy, db =>
    (Taskq.createContinuationWorkflow env key kind params queues actor limit policy db).map (·.2)
  | .sealWorkflow w actor, db => (Taskq.sealWorkflow env w actor db).map (·.2)
  | .cancelWorkflow w actor reason, db => (Taskq.cancelWorkflow env w actor reason db).map (·.2)
  | .advanceWorkflowCancellations limit, db =>
    (Taskq.advanceWorkflowCancellations env limit db).map (·.2)
  | .finalizeWorkflows limit, db => (Taskq.finalizeWorkflows env limit db).map (·.2)
  | .tick reapLimit, db => (Taskq.tick env reapLimit db).map (·.2)
  | .janitor, db => (Taskq.janitor env db).map (·.2)
  | .ensureQueue name profile, db => (Taskq.ensureQueue env name profile db).map (·.2)
  | .pauseQueue name reason, db => (Taskq.pauseQueue env name reason db).map (·.2)
  | .resumeQueue name, db => (Taskq.resumeQueue env name db).map (·.2)
  | .setConcurrencyLimit key maxRunning, db => (Taskq.setConcurrencyLimit key maxRunning db).map (·.2)
  | .setFlowLimit key rate burst, db => (Taskq.setFlowLimit key rate burst db).map (·.2)
  | .setBreakerConfig queue threshold cooldown successes, db =>
    (Taskq.setBreakerConfig env queue threshold cooldown successes db).map (·.2)
  | .setBreakerRate queue ratio window volume, db => Taskq.setBreakerRate env queue ratio window volume db
  | .setBreakerLatency queue threshold window volume, db =>
    Taskq.setBreakerLatency env queue threshold window volume db
  | .tripBreaker queue, db => Taskq.tripBreaker env queue db
  | .forceCloseBreaker queue, db => Taskq.forceCloseBreaker env queue db
  | .setPriorityAging queue aging, db => (Taskq.setPriorityAging env queue aging db).map (·.2)
  | .bindQueueAdmissionOwner queue role, db => Taskq.bindQueueAdmissionOwner env queue role db
  | .adoptQueueAdmissionOwner queue role actor reason, db =>
    Taskq.adoptQueueAdmissionOwner env queue role actor reason db
  | .rotateQueueAdmissionOwner queue role actor reason, db =>
    Taskq.rotateQueueAdmissionOwner env queue role actor reason db
  | .putSchedule name definition actor expected, db =>
    (Taskq.putSchedule env name definition actor expected db).map (·.2)
  | .putManagedSchedule name definition m actor expected, db =>
    (Taskq.putManagedSchedule env name definition m actor expected db).map (·.2)
  | .setScheduleState name active expected actor reason, db =>
    (Taskq.setScheduleState env name active expected actor reason db).map (·.2)
  | .retireSchedule name expected actor, db =>
    (Taskq.retireSchedule env name expected actor db).map (·.2)
  | .setScheduleSmear name smear, db => Taskq.setScheduleSmear env name smear db
  | .claimSchedules worker limit lease, db => (Taskq.claimSchedules env worker limit lease db).map (·.2)
  | .fireSchedule a, db => (Taskq.fireSchedule env a db).map (·.2)
  | .scheduleError a, db => (Taskq.scheduleError env a db).map (·.2)

/-- The maintenance schedule that migration 0010 seeds. -/
def janitorSchedule (site : Site) (now : Time) : ScheduleRow where
  name := janitorName
  target := .build [("kind", .str "maintenance"), ("maintenance", .str "janitor")]
  recurrence := .build [("kind", .str "cron"), ("expression", .str "0 3 * * *"),
    ("timezone", .str "UTC")]
  catchupPolicy := .fireOnce
  maxCatchup := 1
  state := .active
  initialized := false
  nextFireAt := now
  lastFireAt := none
  version := 1
  claim := none
  retryNotBefore := none
  lastError := none
  lastAction := none
  createdBy := "migration:0010"
  updatedBy := "migration:0010"
  createdAt := now
  updatedAt := now
  retiredAt := none
  ownerNamespace := "taskq"
  source := "package"
  manifestKey := janitorName
  displayName := janitorName
  definitionHash := site.sha256 (Jsonb.text (.build [
    ("target", .build [("kind", .str "maintenance"), ("maintenance", .str "janitor")]),
    ("recurrence", .build [("kind", .str "cron"), ("expression", .str "0 3 * * *"),
      ("timezone", .str "UTC")]),
    ("catchup_policy", .str "fire_once"), ("max_catchup", .ofInt 1), ("paused", .bool false),
    ("overlap", .str "forbid"), ("max_lateness_seconds", .null)]))
  overlapPolicy := .forbid
  maxLatenessSeconds := none
  consecutiveDefinitionErrors := 0
  pausedAudit := none
  smearSeconds := none
  admissionOwnerOid := none

/-- A freshly migrated database. -/
def Db.installed (site : Site) (now : Time) : Db where
  jobs := .empty
  attempts := .empty
  deps := ∅
  workflows := .empty
  memberCounts := .empty
  nextUuid := 2
  queues := .empty
  queueCounters := .empty
  queueFlow := .empty
  concurrencyLimits := .empty
  flowLimits := .empty
  flowState := .empty
  admissions := .empty
  scheduling := ⟨Table.empty.put 1 ⟨janitorSchedule site now, rfl⟩, .empty, .empty⟩
  events := []
  notices := []

/-- A server whose casts read no text, whose hash is constant and whose locale is C: enough for calls that cast and
hash nothing. -/
def Site.plain : Site where
  sha256 := fun _ => ""
  parseInt := fun _ => none
  parseUuid := fun _ => none
  parseBool := fun _ => none
  knownTimezone := fun _ => false
  wideSpace := fun _ => false
  arithmetic := .numeric

/-- The value of a text of decimal digits. -/
def readDigits (s : String) : Option ℤ :=
  if s = "" then none
  else s.toList.foldl (fun value c => value.bind fun n =>
    if c.isDigit then some (10 * n + ((c.toNat : ℤ) - 48)) else none) (some 0)

/-- A server that also reads decimal digits as integers: enough for calls that configure a queue. -/
def Site.digits : Site := { Site.plain with parseInt := readDigits }

/-- The surroundings of an attested call that no other transaction disturbs. -/
def Env.alone (site : Site) (now : Time) (xid : ℕ) : Env where
  toSite := site
  now := now
  locked := fun _ => false
  tryLock := fun _ => true
  jitter := fun _ => ⟨1 / 2, by norm_num⟩
  attested := true
  xid := xid
  deleteRank := id
  memberOf := fun _ => true
  roleExists := fun _ => true
  housekeeper := false
  timeText := fun t => toString t
  parseTime := fun _ => none
  operator := true
  expectedTarget := true
  ownerRole := fun _ => none
  settledPerSecond := fun _ => none
  readyJobs := fun _ => 0

/-- A running installation: its tables, the time and the id of the last transaction, and, as a
record that no function reads, every job ever admitted with the row it had after its admission. -/
structure System where
  db : Db
  clock : Time
  xid : ℕ
  admitted : List (Uuid × Job)

/-- The jobs that a step adds. -/
def newJobs (db db' : Db) : List (Uuid × Job) := db'.jobs.select fun id _ => (db.jobs.get? id).isNone

def System.installed (site : Site) (now : Time) : System := ⟨Db.installed site now, now, 0, []⟩

/-- One call commits. A call that raises leaves everything as it was. -/
inductive System.Step (site : Site) (env : Env) (command : Command) (s : System) : System → Prop
  | commit {db : Db} (server : env.toSite = site) (fresh : s.xid < env.xid)
      (run : command.exec env s.db = .ok db) :
      System.Step site env command s ⟨db, env.now, env.xid, s.admitted ++ newJobs s.db db⟩

/-- Any number of calls, each of them allowed where it is made. -/
inductive System.Run (site : Site) (allowed : System → Env → Command → Prop) (s : System) :
    System → Prop
  | start : System.Run site allowed s s
  | step {t u : System} {env : Env} {command : Command} (run : System.Run site allowed s t)
      (permitted : allowed t env command) (step : System.Step site env command t u) :
      System.Run site allowed s u

/-- No call is ruled out. -/
def anyCall : System → Env → Command → Prop := fun _ _ _ => True

/-- The database clock does not go back. -/
def clockForward : System → Env → Command → Prop := fun s env _ => s.clock ≤ env.now

/-- The states that calls lead to after an installation. -/
def System.Reachable (site : Site) (allowed : System → Env → Command → Prop) (s : System) : Prop :=
  ∃ now, System.Run site allowed (System.installed site now) s

section Run

variable {site : Site} {allowed : System → Env → Command → Prop} {s t u : System}

theorem System.Run.trans (first : System.Run site allowed s t) (second : System.Run site allowed t u) :
    System.Run site allowed s u := by
  induction second with
  | start => exact first
  | step _ permitted step ih => exact .step ih permitted step

/-- What an installation satisfies and every allowed call keeps holds in every reachable state. -/
theorem System.Reachable.induction {I : System → Prop} (reachable : System.Reachable site allowed s)
    (installed : ∀ now, I (System.installed site now))
    (step : ∀ {t u : System} {env : Env} {command : Command}, I t → allowed t env command →
      System.Step site env command t u → I u) : I s := by
  obtain ⟨now, run⟩ := reachable
  induction run with
  | start => exact installed now
  | step _ permitted next ih => exact step ih permitted next

/-- The same from any state on: what the calls keep holds after them. -/
theorem System.Run.induction {I : System → Prop} (run : System.Run site allowed s t) (initial : I s)
    (step : ∀ {t u : System} {env : Env} {command : Command}, I t → allowed t env command →
      System.Step site env command t u → I u) : I t := by
  induction run with
  | start => exact initial
  | step _ permitted next ih => exact step ih permitted next

theorem System.Reachable.extend (reachable : System.Reachable site allowed s)
    (run : System.Run site allowed s t) : System.Reachable site allowed t := by
  obtain ⟨now, first⟩ := reachable
  exact ⟨now, first.trans run⟩

end Run

section Play

/-- A job with a type and an empty payload, everything else left to its queue. -/
def EnqueueArgs.simple (queue : String) : EnqueueArgs where
  queue := queue
  jobType := some "t"
  payload := some (.obj [])
  priority := none
  scheduledAt := none
  idempotencyKey := none
  concurrencyKey := none
  affinityKey := none
  maxAttempts := none
  leaseSeconds := none
  backoffMode := none
  backoffBase := none
  backoffCap := none
  dependsOn := []
  workflowId := none
  stepKey := none
  parentJobId := none
  headers := none
  ttlSeconds := none
  flowKey := none

/-- A claim of up to `batch` jobs of any type. -/
def ClaimArgs.simple (queue : String) (batch : ℤ) : ClaimArgs where
  queue := queue
  workerId := some "w"
  batch := some batch
  jobTypes := none
  leaseSeconds := none
  affinityKey := none
  jobId := none
  acceptThrottled := true

/-- Calls made one after the other, each with its time, on a server that nothing else uses. -/
def System.play (site : Site) : List (Time × Command) → System → Call System
  | [], s => .ok s
  | (now, command) :: rest, s => do
    let env := Env.alone site now (s.xid + 1)
    let db ← command.exec env s.db
    System.play site rest ⟨db, now, s.xid + 1, s.admitted ++ newJobs s.db db⟩

/-- The calls all commit and the state that they lead to has the property. -/
def System.plays (site : Site) (calls : List (Time × Command)) (s : System) (p : System → Bool) : Bool :=
  match System.play site calls s with
  | .ok t => p t
  | .error _ => false

variable {site : Site} {allowed : System → Env → Command → Prop} {s t : System}

theorem System.play_run {calls : List (Time × Command)} (run : System.play site calls s = .ok t)
    (permitted : ∀ u : System, ∀ call ∈ calls, allowed u (.alone site call.1 (u.xid + 1)) call.2) :
    System.Run site allowed s t := by
  induction calls generalizing s with
  | nil =>
    cases run
    exact .start
  | cons call rest ih =>
    obtain ⟨db, first, rest⟩ := seq_eq_ok.mp run
    have one : System.Run site allowed s _ :=
      .step .start (permitted s call (by simp)) (.commit rfl (Nat.lt_succ_self s.xid) first)
    exact one.trans (ih rest fun u call member => permitted u call (by simp [member]))

theorem System.plays_run (allowed : System → Env → Command → Prop) {calls : List (Time × Command)}
    {p : System → Bool} (plays : System.plays site calls s p = true)
    (permitted : ∀ u : System, ∀ call ∈ calls, allowed u (.alone site call.1 (u.xid + 1)) call.2) :
    ∃ t, System.Run site allowed s t ∧ p t = true := by
  unfold System.plays at plays
  split at plays
  · rename_i t run
    exact ⟨t, System.play_run run permitted, plays⟩
  · cases plays

end Play

end Taskq
