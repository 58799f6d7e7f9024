import Taskq.Model.Maintenance
import Taskq.Model.Schedule

/-! The scheduler's runtime verbs: claiming due schedules, firing occurrences, recording errors. -/
namespace Taskq
open Relational

section Claim

/-- `taskq.schedule_claim`: what an engine learns about a schedule that it claimed. -/
structure ClaimedSchedule where
  scheduleId : Uuid
  name : String
  definitionVersion : ℤ
  asOf : Time
  target : Jsonb
  recurrence : Jsonb
  catchupPolicy : CatchupPolicy
  maxCatchup : ℤ
  initialized : Bool
  nextFireAt : Time
  token : Uuid
  leaseSeconds : ℤ
  smearSeconds : Option ℤ
  deriving DecidableEq, Repr

/-- The schedule is active, due, not backing off and not under a live lease. -/
def claimableSchedule (env : Env) (s : ScheduleRow) : Bool :=
  s.state = .active && s.nextFireAt ≤ env.now && s.retryNotBefore.all (· ≤ env.now) &&
  s.claim.all (·.expiresAt ≤ env.now)

def dueLe (a b : Uuid × Schedule) : Bool :=
  a.2.nextFireAt < b.2.nextFireAt || (a.2.nextFireAt = b.2.nextFireAt && a.1 ≤ b.1)

/-- The schedules that a claim reaches, those due longest first. -/
def dueSchedules (env : Env) (db : Db) : List (Uuid × Schedule) :=
  db.scheduling.schedules.selectBy (fun id s => claimableSchedule env s.toScheduleRow ∧ ¬env.locked id)
    dueLe

/-- Give one schedule a fresh token and a lease. -/
def claimSchedule (env : Env) (worker : String) (lease : ℤ) (id : Uuid) (s : Schedule) (db : Db) :
    Call (ClaimedSchedule × Db) := do
  let (token, db) := newUuid db
  let db ← writeSchedule id { s.toScheduleRow with
    claim := some ⟨token, env.now, worker, env.now + seconds lease⟩, updatedAt := env.now } db
  .ok (⟨id, s.name, s.version, env.now, s.target, s.recurrence, s.catchupPolicy, s.maxCatchup,
    s.initialized, s.nextFireAt, token, lease, s.smearSeconds⟩, db)

def claimAll (env : Env) (worker : String) (lease : ℤ) :
    List (Uuid × Schedule) → Db → Call (List ClaimedSchedule × Db)
  | [], db => .ok ([], db)
  | (id, s) :: rest, db => do
    let (claim, db) ← claimSchedule env worker lease id s db
    let (claims, db) ← claimAll env worker lease rest db
    .ok (claim :: claims, db)

/-- `claim_schedules`. -/
def claimSchedules (env : Env) (worker : Option String) (limit lease : Option ℤ) (db : Db) :
    Call (List ClaimedSchedule × Db) := do
  ensure env.attested attestationRequired
  ensure (worker.any (fun w => 1 ≤ octetLength w && octetLength w ≤ 200) ∧
    limit.any (fun n => 1 ≤ n ∧ n ≤ 100) ∧ lease.any fun n => 5 ≤ n ∧ n ≤ 300)
    (tq422 "invalid schedule claim arguments")
  claimAll env (worker.getD "") (lease.getD 0) ((dueSchedules env db).take (limit.getD 0).toNat) db

end Claim

section Actions

/-- `taskq.schedule_action_result`. -/
structure ActionResult where
  outcome : ActionOutcome
  replayed : Bool
  scheduleId : Uuid
  jobsEnqueued : ℤ
  nextFireAt : Time
  state : ScheduleState
  version : ℤ
  deriving DecidableEq, Repr

def staleResult (id : Uuid) (s : ScheduleRow) : ActionResult :=
  ⟨.stale, false, id, 0, s.nextFireAt, s.state, s.version⟩

def StoredAction.result (a : StoredAction) (replayed : Bool) (id : Uuid) : ActionResult :=
  ⟨a.outcome, replayed, id, a.jobsEnqueued, a.nextFireAt, a.state, a.version⟩

/-- The answer to a call whose token is that of the last action, if it is. -/
def replayedAction (id : Uuid) (s : ScheduleRow) (token : Uuid) (hash : String) :
    Option ActionResult :=
  match s.lastAction with
  | none => none
  | some last =>
    if last.token = token then
      some (if last.hash = hash then last.result.result true id else staleResult id s)
    else none

/-- The lease under which an action may change the schedule, when the call still has it. -/
def currentClaim (env : Env) (s : ScheduleRow) (token : Uuid) (version : ℤ) : Option ScheduleClaim :=
  s.claim.filter fun c =>
    s.state = .active && s.version = version && c.token = token && env.now ≤ c.expiresAt

end Actions

section Fire

structure FireArgs where
  scheduleId : Uuid
  token : Uuid
  definitionVersion : ℤ
  occurrences : List Time
  nextFireAt : Time
  deriving DecidableEq, Repr

/-- The hash under which a fire call is recorded. -/
def FireArgs.hash (env : Env) (a : FireArgs) : String :=
  env.sha256 (Jsonb.text (.build [("kind", .str "fire"), ("version", .ofInt a.definitionVersion),
    ("occurrences", .arr (a.occurrences.map fun t => .str (env.timeText t))),
    ("next_fire_at", .str (env.timeText a.nextFireAt))]))

/-- The occurrences are in strictly ascending order and due at the claim. -/
def orderedAndDue (asOf : Time) : Option Time → List Time → Bool
  | _, [] => true
  | previous, due :: rest =>
    due ≤ asOf && previous.all (· < due) && orderedAndDue asOf (some due) rest

/-- The outcome of a fire call under the schedule's policy, once its shape is right. -/
def fireOutcome (s : ScheduleRow) (claim : ScheduleClaim) (a : FireArgs) : Call ActionOutcome :=
  let count := a.occurrences.length
  let beyond : Prop := claim.asOf < a.nextFireAt
  if ¬s.initialized then do
    ensure (count = 0 ∧ beyond) (tq422 "initial schedule compilation cannot fire")
    .ok .initialized
  else
    match s.catchupPolicy with
    | .skip => do
      ensure (count = 0 ∧ beyond) (tq422 "skip must advance beyond database as_of")
      .ok .skipped
    | .fireOnce => do
      ensure (count = 1 ∧ a.occurrences.head?.all (s.nextFireAt ≤ ·) ∧ beyond)
        (tq422 "fire_once requires one latest due occurrence")
      .ok .fired
    | .fireAll => do
      ensure (1 ≤ count ∧ count ≤ s.maxCatchup ∧ a.occurrences.head? = some s.nextFireAt ∧
        a.occurrences.getLast?.all (· < a.nextFireAt) ∧ (count < s.maxCatchup → beyond))
        (tq422 "fire_all requires a bounded oldest-first prefix")
      .ok .fired

/-- The bounds, the order and the policy of a fire call. -/
def checkFire (s : ScheduleRow) (claim : ScheduleClaim) (a : FireArgs) : Call ActionOutcome := do
  ensure (a.occurrences.length ≤ s.maxCatchup ∧ s.nextFireAt < a.nextFireAt)
    (tq422 "invalid schedule fire bounds")
  ensure (orderedAndDue claim.asOf none a.occurrences = true)
    (tq422 "schedule occurrences must be ordered and due")
  fireOutcome s claim a

/-- Whole seconds by which an occurrence is late at the claim. -/
def lateness (claim : ScheduleClaim) (due : Time) : Call ℤ := do
  let n ← int4 ((claim.asOf - due) / 1000000)
  .ok (max 0 n)

/-- An earlier occurrence of the schedule has a job that is still live. -/
def overlaps (db : Db) (id : Uuid) (due : Time) : Bool :=
  db.scheduling.occurrences.count (fun key o => key.1 = id ∧ key.2 < due ∧
    (o.jobId.bind db.jobs.get?).any (·.status.active)) ≠ 0

/-- What becomes of one occurrence. -/
def occurrenceOutcome (db : Db) (id : Uuid) (s : ScheduleRow) (due : Time) (late : ℤ) :
    OccurrenceOutcome :=
  if s.maxLatenessSeconds.any (· < late) then .lateSkipped
  else if s.overlapPolicy = .forbid ∧ s.target.fieldText? "kind" = some "job" ∧ overlaps db id due
  then .overlapSkipped
  else .fired

/-- The idempotency key of an occurrence's job. -/
def occurrenceKey (id : Uuid) (due : Time) : String :=
  "schedule:" ++ Uuid.text id ++ ":" ++ toString due

/-- The header that identifies an occurrence to its job. -/
def scheduleHeader (env : Env) (id : Uuid) (s : ScheduleRow) (claim : ScheduleClaim)
    (occurrence : Uuid) (due : Time) (late : ℤ) : Jsonb :=
  .build [("schedule_id", uuidJson id),
    ("schedule_key", .str (s.ownerNamespace ++ "." ++ s.manifestKey)),
    ("occurrence_id", uuidJson occurrence), ("definition_version", .ofInt s.version),
    ("scheduled_for", .str (env.timeText due)), ("enqueued_at", .str (env.timeText claim.asOf)),
    ("lateness_seconds", .ofInt late), ("backfilled", .bool (due < claim.asOf))]

/-- The arguments with which an occurrence's job is enqueued. -/
def occurrenceArgs (env : Env) (id : Uuid) (s : ScheduleRow) (claim : ScheduleClaim)
    (occurrence : Uuid) (due : Time) (late : ℤ) : Call EnqueueArgs := do
  let target := s.target
  let priority ← smallField env target "priority"
  let maxAttempts ← smallField env target "max_attempts"
  let leaseSeconds ← castInt env target "lease_seconds"
  let backoffBase ← castInt env target "backoff_base"
  let backoffCap ← castInt env target "backoff_cap"
  .ok ⟨(target.fieldText? "queue").getD "", target.fieldText? "job_type", target.field? "payload",
    priority, some due, some (occurrenceKey id due), target.fieldText? "concurrency_key",
    target.fieldText? "affinity_key", maxAttempts, leaseSeconds, target.fieldText? "backoff_mode",
    backoffBase, backoffCap, [], none, none, none,
    (target.field? "headers").map fun headers => headers.merge (.build [("taskq_schedule",
      scheduleHeader env id s claim occurrence due late)]), none, none⟩

def Db.putOccurrence (db : Db) (key : Uuid × Time) (o : Occurrence) : Db :=
  { db with scheduling := { db.scheduling with
      occurrences := db.scheduling.occurrences.put key o } }

@[simp] theorem Db.putOccurrence_toCore (db : Db) (key : Uuid × Time) (o : Occurrence) :
    (db.putOccurrence key o).toCore = db.toCore := rfl

/-- What one fire call counts: jobs, and occurrences by outcome. -/
structure FireCounts where
  jobs : ℤ
  fired : ℤ
  lateSkipped : ℤ
  overlapSkipped : ℤ
  deriving DecidableEq, Repr

def FireCounts.count (c : FireCounts) : OccurrenceOutcome → FireCounts
  | .fired => { c with fired := c.fired + 1 }
  | .lateSkipped => { c with lateSkipped := c.lateSkipped + 1 }
  | .overlapSkipped => { c with overlapSkipped := c.overlapSkipped + 1 }

/-- Perform a fired occurrence: the janitor for the maintenance schedule, else a job. -/
def performOccurrence (env : Env) (id : Uuid) (s : ScheduleRow) (claim : ScheduleClaim)
    (occurrence : Uuid) (due : Time) (late : ℤ) (db : Db) : Call (Option Uuid × Db) :=
  if s.target.fieldText? "kind" = some "maintenance" then do
    ensure (s.name = janitorName ∧ s.target.fieldText? "maintenance" = some "janitor")
      (.mk' .tq500 "unknown maintenance schedule target")
    let (_, db) ← janitor env db
    .ok (none, db)
  else do
    let args ← occurrenceArgs env id s claim occurrence due late
    let ((job, _), db) ← enqueue env args db
    .ok (some job, db)

/-- Perform an occurrence unless it is skipped. -/
def performFired (env : Env) (id : Uuid) (s : ScheduleRow) (claim : ScheduleClaim)
    (occurrence : Uuid) (due : Time) (late : ℤ) (outcome : OccurrenceOutcome) (db : Db) :
    Call (Option Uuid × Db) :=
  if outcome = .fired then performOccurrence env id s claim occurrence due late db
  else .ok (none, db)

/-- One occurrence of a fire call. Its row is written first, as the proof of admission, and linked
to the job afterwards; an occurrence that has a row already is passed over. -/
def fireOccurrence (env : Env) (id : Uuid) (s : ScheduleRow) (claim : ScheduleClaim)
    (decision : Uuid) (due : Time) (counts : FireCounts) (db : Db) : Call (FireCounts × Db) :=
  if (db.scheduling.occurrences.get? (id, due)).isSome then .ok (counts, db)
  else do
    let (occurrence, db) := newUuid db
    let late ← lateness claim due
    let outcome := occurrenceOutcome db id s due late
    let row : Occurrence := ⟨occurrence, outcome, none, some decision, env.now, env.xid⟩
    let db := db.putOccurrence (id, due) row
    let (job, db) ← performFired env id s claim occurrence due late outcome db
    let counts := counts.count outcome
    .ok ({ counts with jobs := if job.isSome then counts.jobs + 1 else counts.jobs },
      db.putOccurrence (id, due) { row with jobId := job })

def fireOccurrences (env : Env) (id : Uuid) (s : ScheduleRow) (claim : ScheduleClaim)
    (decision : Uuid) : List Time → FireCounts → Db → Call (FireCounts × Db)
  | [], counts, db => .ok (counts, db)
  | due :: rest, counts, db => do
    let (counts, db) ← fireOccurrence env id s claim decision due counts db
    fireOccurrences env id s claim decision rest counts db

/-- The decision row's action for an outcome. -/
def ActionOutcome.decision : ActionOutcome → DecisionAction
  | .initialized => .initialized
  | .skipped => .skipped
  | .fired => .fired
  | .errorRecorded | .stale => .error
  | .autoPaused => .autoPaused

/-- The schedule after a fire: the cursor moves, the lease and the errors go. -/
def advanced (env : Env) (s : ScheduleRow) (a : FireArgs) (last : LastAction) : ScheduleRow :=
  { s with
    initialized := true, nextFireAt := a.nextFireAt
    lastFireAt := a.occurrences.getLast? <|> s.lastFireAt, claim := none, retryNotBefore := none
    lastError := none, consecutiveDefinitionErrors := 0, lastAction := some last
    updatedAt := env.now }

/-- What a fire call does under its own live lease. -/
def fireUnderClaim (env : Env) (a : FireArgs) (s : Schedule) (claim : ScheduleClaim) (decision : Uuid)
    (db : Db) : Call (ActionResult × Db) := do
  let outcome ← checkFire s.toScheduleRow claim a
  let (counts, db) ← fireOccurrences env a.scheduleId s.toScheduleRow claim decision a.occurrences
    ⟨0, 0, 0, 0⟩ db
  let db := db.putDecision decision ⟨a.scheduleId, a.token, s.version, claim.asOf, s.nextFireAt,
    a.nextFireAt, outcome.decision, a.occurrences.length, counts.jobs,
    .build [("fired", .ofInt counts.fired), ("late_skipped", .ofInt counts.lateSkipped),
      ("overlap_skipped", .ofInt counts.overlapSkipped)], claim.claimedBy, env.now⟩
  let stored : StoredAction := ⟨outcome, counts.jobs, a.nextFireAt, s.state, s.version⟩
  let db ← writeSchedule a.scheduleId
    (advanced env s.toScheduleRow a ⟨a.token, a.hash env, stored⟩) db
  .ok (stored.result false a.scheduleId, db)

/-- `fire_schedule`. -/
def fireSchedule (env : Env) (a : FireArgs) (db : Db) : Call (ActionResult × Db) := do
  ensure env.attested attestationRequired
  let (decision, db) := newUuid db
  ensure (a.token ≠ 0 ∧ 0 < a.definitionVersion) (tq422 "invalid schedule fire arguments")
  match scheduleById db a.scheduleId with
  | none => .error noSuchSchedule
  | some s =>
    match replayedAction a.scheduleId s.toScheduleRow a.token (a.hash env) with
    | some answer => .ok (answer, db)
    | none =>
      match currentClaim env s.toScheduleRow a.token a.definitionVersion with
      | none => .ok (staleResult a.scheduleId s.toScheduleRow, db)
      | some claim => fireUnderClaim env a s claim decision db

end Fire

section Error

structure ErrorArgs where
  scheduleId : Uuid
  token : Uuid
  definitionVersion : ℤ
  error : String
  retrySeconds : Option ℤ
  deterministic : Bool
  deriving DecidableEq, Repr

/-- The hash under which an error call is recorded. -/
def ErrorArgs.hash (env : Env) (a : ErrorArgs) : String :=
  env.sha256 (Jsonb.text (.build [("kind", .str "error"), ("version", .ofInt a.definitionVersion),
    ("error", .str a.error), ("retry_seconds", intJson a.retrySeconds),
    ("deterministic", .bool a.deterministic)]))

/-- The schedule after an error; the third deterministic error in a row pauses it. -/
def afterError (env : Env) (s : ScheduleRow) (a : ErrorArgs) (errors : ℤ) (autoPause : Bool)
    (last : LastAction) : ScheduleRow :=
  { s with
    state := if autoPause then .paused else s.state
    version := if autoPause then s.version + 1 else s.version, claim := none
    retryNotBefore :=
      if autoPause then none else a.retrySeconds.map fun n => env.now + seconds n
    lastError := some (truncateUtf8 a.error 2048), consecutiveDefinitionErrors := errors
    pausedAudit :=
      if autoPause then some ⟨"deterministic_definition_error", "taskq-scheduler", env.now⟩
      else s.pausedAudit
    lastAction := some last, updatedAt := env.now }

/-- What an error call does under its own live lease. -/
def errorUnderClaim (env : Env) (a : ErrorArgs) (s : Schedule) (claim : ScheduleClaim) (db : Db) :
    Call (ActionResult × Db) := do
  let errors := if a.deterministic then min 3 (s.consecutiveDefinitionErrors + 1)
    else s.consecutiveDefinitionErrors
  let autoPause : Bool := a.deterministic ∧ 3 ≤ errors
  let outcome : ActionOutcome := if autoPause then .autoPaused else .errorRecorded
  let stored : StoredAction := ⟨outcome, 0, s.nextFireAt, if autoPause then .paused else s.state,
    if autoPause then s.version + 1 else s.version⟩
  let db ← writeSchedule a.scheduleId
    (afterError env s.toScheduleRow a errors autoPause ⟨a.token, a.hash env, stored⟩) db
  let (decision, db) := newUuid db
  .ok (stored.result false a.scheduleId, db.putDecision decision
    ⟨a.scheduleId, a.token, a.definitionVersion, claim.asOf, s.nextFireAt, s.nextFireAt,
      outcome.decision, 0, 0, .build [("deterministic", .bool a.deterministic),
        ("consecutive_definition_errors", .ofInt errors)], claim.claimedBy, env.now⟩)

/-- `schedule_error`. -/
def scheduleError (env : Env) (a : ErrorArgs) (db : Db) : Call (ActionResult × Db) := do
  ensure env.attested attestationRequired
  ensure (0 < a.definitionVersion ∧ a.retrySeconds.all fun n => 1 ≤ n ∧ n ≤ 3600)
    (tq422 "invalid schedule error arguments")
  match scheduleById db a.scheduleId with
  | none => .error noSuchSchedule
  | some s =>
    match replayedAction a.scheduleId s.toScheduleRow a.token (a.hash env) with
    | some answer => .ok ({ answer with jobsEnqueued := 0 }, db)
    | none =>
      match currentClaim env s.toScheduleRow a.token a.definitionVersion with
      | none => .ok (staleResult a.scheduleId s.toScheduleRow, db)
      | some claim => errorUnderClaim env a s claim db

end Error

end Taskq
