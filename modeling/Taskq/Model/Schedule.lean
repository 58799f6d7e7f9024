import Taskq.Model.Config

/-! Schedule definitions: the checks on a definition, and the verbs that write one. -/
namespace Taskq
open Relational

section Recurrence

/-- `[[:space:]]`. -/
def isBlank (site : Site) (c : Char) : Bool :=
  c = ' ' || (9 ≤ c.toNat && c.toNat ≤ 13) || (128 ≤ c.toNat && site.wideSpace c)

/-- `regexp_split_to_array(…, '[[:space:]]+')`: the current field, and whether the last character
was a separator. -/
def splitBlanks (site : Site) : List Char → List Char → Bool → List String
  | field, [], _ => [String.ofList field]
  | field, c :: cs, separated =>
    if isBlank site c then
      if separated then splitBlanks site field cs true
      else String.ofList field :: splitBlanks site [] cs true
    else splitBlanks site (field ++ [c]) cs false

/-- `btrim`, which removes spaces only. -/
def trimSpaces (s : String) : List Char :=
  ((s.toList.dropWhile (· = ' ')).reverse.dropWhile (· = ' ')).reverse

def isDigits (cs : List Char) : Bool := !cs.isEmpty && cs.all Char.isDigit

/-- The value of a run of digits. -/
def digitsValue (cs : List Char) : ℤ := cs.foldl (fun n c => n * 10 + (c.toNat - '0'.toNat : ℕ)) 0

def cronError : SqlError := tq422 "cron value out of range"

/-- A base `a` or `a-b` of a cron item within the bounds of its field. -/
def checkCronRange (low high : ℤ) (base : List Char) : Call Unit := do
  let bounds := (base.splitOn '-').map digitsValue
  let start ← int4 (bounds.headD 0)
  let stop ← int4 (bounds.getLastD 0)
  ensure (low ≤ start ∧ start ≤ high ∧ low ≤ stop ∧ stop ≤ high ∧ start ≤ stop) cronError

/-- One item of a cron field: `^(\*|[0-9]+(-[0-9]+)?)(/[0-9]+)?$` and its bounds. -/
def checkCronItem (low high : ℤ) (item : List Char) : Call Unit := do
  let parts := item.splitOn '/'
  let base := parts.headD []
  let range := base.splitOn '-'
  ensure ((base = ['*'] ∨ (range.length ≤ 2 ∧ range.all isDigits)) ∧ parts.length ≤ 2 ∧
    parts.tail.all isDigits) (tq422 "unsupported cron token")
  let step ← int4 ((parts.tail.head?.map digitsValue).getD 1)
  ensure (0 < step) (tq422 "cron step must be positive")
  if base = ['*'] then .ok () else checkCronRange low high base

def checkCronItems (low high : ℤ) : List (List Char) → Call Unit
  | [] => .ok ()
  | item :: items => do
    checkCronItem low high item
    checkCronItems low high items

/-- The bounds of the five cron fields. -/
def cronBounds : List (ℤ × ℤ) := [(0, 59), (0, 23), (1, 31), (1, 12), (0, 7)]

def checkCronFields : List (String × ℤ × ℤ) → Call Unit
  | [] => .ok ()
  | (field, low, high) :: fields => do
    ensure (field ≠ "") (tq422 "empty cron field")
    checkCronItems low high (field.toList.splitOn ',')
    checkCronFields fields

/-- The document has all these keys. -/
def hasKeys (document : Jsonb) (keys : List String) : Bool := keys.all document.hasKey

/-- The document has no key outside these. -/
def onlyKeys (document : Jsonb) (keys : List String) : Bool := document.keys.all keys.contains

/-- The recurrence as it is stored. -/
def normalizeRecurrence (env : Env) (recurrence : Jsonb) : Call Jsonb := do
  ensure (recurrence.kind = .object ∧ recurrence.hasKey "kind") (tq422 "invalid schedule recurrence")
  if recurrence.fieldText? "kind" = some "interval" then do
    ensure (onlyKeys recurrence ["kind", "interval_seconds"] ∧
      (recurrence.field? "interval_seconds").any (·.kind = .number))
      (tq422 "invalid interval recurrence")
    let n ← (castInt env recurrence "interval_seconds").mapError fun _ =>
      tq422 "invalid interval_seconds"
    ensure (n.any fun n => 60 ≤ n ∧ n ≤ 31536000) (tq422 "interval_seconds must be 60..31536000")
    .ok (.build [("kind", .str "interval"), ("interval_seconds", intJson n)])
  else if recurrence.fieldText? "kind" = some "cron" then do
    ensure (hasKeys recurrence ["expression", "timezone"] ∧
      onlyKeys recurrence ["kind", "expression", "timezone"]) (tq422 "invalid cron recurrence")
    let expression := (recurrence.fieldText? "expression").getD ""
    let timezone := (recurrence.fieldText? "timezone").getD ""
    ensure (1 ≤ octetLength expression ∧ octetLength expression ≤ 255 ∧ 1 ≤ octetLength timezone ∧
      octetLength timezone ≤ 255 ∧ env.knownTimezone timezone)
      (tq422 "invalid cron expression or timezone")
    let fields := splitBlanks env.toSite [] (trimSpaces expression) false
    ensure (fields.length = 5) (tq422 "cron requires exactly five fields")
    checkCronFields (fields.zip cronBounds)
    .ok (.build [("kind", .str "cron"), ("expression", .str (String.intercalate " " fields)),
      ("timezone", .str timezone)])
  else .error (tq422 "recurrence kind must be interval or cron")

end Recurrence

section Definition

def scheduleTargetKeys : List String :=
  ["kind", "queue", "job_type", "payload", "headers", "priority", "max_attempts", "lease_seconds",
   "backoff_mode", "backoff_base", "backoff_cap", "concurrency_key", "affinity_key"]

/-- An optional integer field of a target. -/
def checkTargetInt (env : Env) (target : Jsonb) (key : String) (low high : ℤ) : Call Unit :=
  match target.field? key with
  | none | some .null => .ok ()
  | some (.num _) => do
    let n ← (castInt env target key).mapError fun _ => tq422 "invalid numeric schedule field"
    ensure (n.all fun n => low ≤ n ∧ n ≤ high) (tq422 ("invalid schedule " ++ key))
  | some _ => .error (tq422 ("invalid schedule " ++ key))

/-- An optional text field of a target. -/
def checkTargetText (target : Jsonb) (key : String) (p : String → Bool) : Call Unit :=
  ensure ((target.fieldText? key).all p) (tq422 ("invalid schedule " ++ key))

def keyBytesOk (s : String) : Bool := 1 ≤ octetLength s && octetLength s ≤ 255

/-- The job target as it is stored: every field present, missing ones null. -/
def normalizeTarget (env : Env) (target : Jsonb) (db : Db) : Call Jsonb := do
  ensure (target.kind = .object ∧ hasKeys target ["kind", "queue", "job_type"] ∧
    onlyKeys target scheduleTargetKeys) (tq422 "invalid schedule target")
  let queue := (target.fieldText? "queue").getD ""
  let jobType := (target.fieldText? "job_type").getD ""
  ensure (target.fieldText? "kind" = some "job" ∧ isQueueName queue ∧ keyBytesOk jobType)
    (tq422 "invalid schedule job target")
  ensure ((db.queues.get? queue).isSome) noSuchQueue
  let payload := (target.field? "payload").getD (.obj [])
  ensure (payload.kind = .object ∧ octetLength payload.text ≤ 65536)
    (tq422 "schedule payload must be an object at most 64KB")
  let headers := (target.field? "headers").getD (.obj [])
  ensure (headers.kind = .object ∧ octetLength headers.text ≤ 8192)
    (tq422 "schedule headers must be an object at most 8KB")
  checkTargetInt env target "priority" 0 1000
  checkTargetInt env target "max_attempts" 1 100
  checkTargetInt env target "lease_seconds" 15 86400
  checkTargetInt env target "backoff_base" 0 86400
  checkTargetInt env target "backoff_cap" 0 604800
  checkTargetText target "backoff_mode" fun m => (BackoffMode.ofText? m).isSome
  checkTargetText target "concurrency_key" keyBytesOk
  checkTargetText target "affinity_key" keyBytesOk
  let field := fun key => (key, (target.field? key).getD .null)
  .ok (.build ([("kind", .str "job"), ("queue", .str queue), ("job_type", .str jobType),
    ("payload", payload), ("headers", headers)] ++
    ["priority", "max_attempts", "lease_seconds", "backoff_mode", "backoff_base", "backoff_cap",
      "concurrency_key", "affinity_key"].map field))

def CatchupPolicy.ofText? (s : String) : Option CatchupPolicy :=
  if s = "skip" then some .skip else if s = "fire_once" then some .fireOnce
  else if s = "fire_all" then some .fireAll else none

def CatchupPolicy.text : CatchupPolicy → String
  | .skip => "skip"
  | .fireOnce => "fire_once"
  | .fireAll => "fire_all"

def OverlapPolicy.ofText? (s : String) : Option OverlapPolicy :=
  if s = "forbid" then some .forbid else if s = "allow" then some .allow else none

def OverlapPolicy.text : OverlapPolicy → String
  | .forbid => "forbid"
  | .allow => "allow"

/-- A definition after validation. A null catch-up policy passes the checks. -/
structure Definition where
  target : Jsonb
  recurrence : Jsonb
  catchupPolicy : Option CatchupPolicy
  maxCatchup : ℤ
  paused : Bool

def Definition.state (d : Definition) : ScheduleState := if d.paused then .paused else .active

/-- The checks of `put_schedule` on a definition. -/
def parseDefinition (env : Env) (definition : Jsonb) (db : Db) : Call Definition := do
  ensure (definition.kind = .object ∧
    hasKeys definition ["target", "recurrence", "catchup_policy", "max_catchup"] ∧
    onlyKeys definition ["target", "recurrence", "catchup_policy", "max_catchup", "paused"])
    (tq422 "invalid schedule definition")
  let target ← normalizeTarget env ((definition.field? "target").getD .null) db
  let recurrence ← normalizeRecurrence env ((definition.field? "recurrence").getD .null)
  let settings := tq422 "invalid catchup settings"
  let policy := definition.fieldText? "catchup_policy"
  ensure (policy.all fun text => (CatchupPolicy.ofText? text).isSome) settings
  ensure ((definition.field? "max_catchup").any (·.kind = .number)) settings
  let limit ← (castInt env definition "max_catchup").mapError fun _ => settings
  ensure (limit.any fun n => 1 ≤ n ∧ n ≤ 100) settings
  ensure ((definition.field? "paused").all (·.kind = .boolean)) (tq422 "paused must be boolean")
  .ok ⟨target, recurrence, policy.bind CatchupPolicy.ofText?, limit.getD 0,
    definition.field? "paused" = some (.bool true)⟩

/-- The definition agrees with the stored one; the pause switch is compared separately. -/
def Definition.sameAs (d : Definition) (s : ScheduleRow) : Bool :=
  s.target.same d.target && s.recurrence.same d.recurrence && some s.catchupPolicy = d.catchupPolicy &&
  s.maxCatchup = d.maxCatchup

/-- The NOT NULL constraint of `schedules.catchup_policy`. -/
def Definition.checkPolicy (d : Definition) : Call Unit :=
  ensure d.catchupPolicy.isSome (.mk' .notNullViolation "catchup_policy")

/-- The policy that a row gets once the constraint holds. -/
def Definition.policy (d : Definition) : CatchupPolicy := d.catchupPolicy.getD .skip

end Definition

section Put

def storeSchedule (r : ScheduleRow) : Call Schedule :=
  if h : r.checksOk = true then .ok ⟨r, h⟩ else .error (checkViolation "schedules")

def Db.putSchedule (db : Db) (id : Uuid) (s : Schedule) : Db :=
  { db with scheduling := { db.scheduling with schedules := db.scheduling.schedules.put id s } }

@[simp] theorem Db.putSchedule_toCore (db : Db) (id : Uuid) (s : Schedule) :
    (db.putSchedule id s).toCore = db.toCore := rfl

/-- `UPDATE taskq.schedules SET … WHERE id = …`. -/
def writeSchedule (id : Uuid) (r : ScheduleRow) (db : Db) : Call Db := do
  let s ← storeSchedule r
  .ok (db.putSchedule id s)

/-- Trigger `schedules_admission_owner_guard`, on INSERT and on UPDATE OF target. -/
def scheduleAdmissionOwner (r : ScheduleRow) (db : Db) : ScheduleRow :=
  { r with admissionOwnerOid :=
      if r.target.fieldText? "kind" = some "job" then
        ((r.target.fieldText? "queue").bind db.queues.get?).bind (·.admissionOwnerOid)
      else none }

def scheduleByName (db : Db) (name : String) : Option (Uuid × Schedule) :=
  (db.scheduling.schedules.select fun _ s => s.name = name).head?

def scheduleById (db : Db) (id : Uuid) : Option Schedule := db.scheduling.schedules.get? id

inductive WriteOutcome where
  | created | unchanged | updated | retired | alreadyRetired
  deriving DecidableEq, Repr

/-- `taskq.schedule_write_result` with the schedule it is about. -/
structure WriteResult where
  outcome : WriteOutcome
  scheduleId : Uuid
  state : ScheduleState
  nextFireAt : Time
  lastFireAt : Option Time
  version : ℤ
  deriving DecidableEq, Repr

def ScheduleRow.result (r : ScheduleRow) (outcome : WriteOutcome) (id : Uuid) : WriteResult :=
  ⟨outcome, id, r.state, r.nextFireAt, r.lastFireAt, r.version⟩

def noSuchSchedule : SqlError := .mk' .tq001 "taskq: no such schedule"

/-- A refusal that reports the version the schedule has. -/
def scheduleConflict (message reason : String) (version : ℤ) : SqlError :=
  ⟨.tq409, message, some (.build [("reason", .str reason), ("current_version", .ofInt version)])⟩

def actorOk (actor : Option String) : Bool := actor.any keyBytesOk

/-- `^[a-z0-9][a-z0-9_.-]*$` with at most `n` bytes, and a set of further characters. -/
def isSlug (extra : String) (n : ℕ) (s : String) : Bool :=
  s.length ≤ n && match s.toList with
    | [] => false
    | c :: cs => isLowerAlnum c && cs.all fun d => isLowerAlnum d || extra.toList.contains d

def isScheduleName (s : String) : Bool := isSlug "_.-" 120 s

/-- The name of the schedule that migration 0010 seeds. -/
def janitorName : String := "taskq-janitor-daily"

/-- A row without the lease, the retry delay and the last action of its old definition. -/
def ScheduleRow.invalidated (r : ScheduleRow) : ScheduleRow :=
  { r with claim := none, retryNotBefore := none, lastAction := none }

/-- A schedule that `put_schedule` creates. -/
def newSchedule (env : Env) (name : String) (d : Definition) (actor : String) : ScheduleRow where
  name := name
  target := d.target
  recurrence := d.recurrence
  catchupPolicy := d.policy
  maxCatchup := d.maxCatchup
  state := d.state
  initialized := false
  nextFireAt := env.now
  lastFireAt := none
  version := 1
  claim := none
  retryNotBefore := none
  lastError := none
  lastAction := none
  createdBy := actor
  updatedBy := actor
  createdAt := env.now
  updatedAt := env.now
  retiredAt := none
  ownerNamespace := "legacy"
  source := "api"
  manifestKey := "legacy"
  displayName := "legacy"
  definitionHash := String.ofList (List.replicate 64 '0')
  overlapPolicy := .forbid
  maxLatenessSeconds := none
  consecutiveDefinitionErrors := 0
  pausedAudit := none
  smearSeconds := none
  admissionOwnerOid := none

/-- The row after a real change of definition or state. Pausing an unchanged definition keeps its
place in the recurrence; everything else starts over from now. -/
def redefined (env : Env) (s : ScheduleRow) (d : Definition) (actor : String) : ScheduleRow :=
  let pausing : Bool := s.state = .active ∧ d.state = .paused ∧ d.sameAs s
  { s.invalidated with
    target := d.target, recurrence := d.recurrence, catchupPolicy := d.policy
    maxCatchup := d.maxCatchup, state := d.state
    initialized := if pausing then s.initialized else false
    nextFireAt := if pausing then s.nextFireAt else env.now
    version := s.version + 1, lastError := none, updatedBy := actor, updatedAt := env.now }

/-- `_put_schedule_unattested`. -/
def putScheduleUnattested (env : Env) (name : Option String) (definition : Jsonb)
    (actor : Option String) (expected : Option ℤ) (db : Db) : Call (WriteResult × Db) := do
  ensure (name.any fun n => isScheduleName n ∧ n ≠ janitorName) (tq422 "invalid schedule name")
  ensure (actorOk actor = true) (tq422 "schedule actor is required")
  ensure (expected.all (0 < ·)) (tq422 "expected version must be positive")
  let name := name.getD ""
  let actor := actor.getD ""
  let d ← parseDefinition env definition db
  match scheduleByName db name with
  | none => do
    ensure expected.isNone noSuchSchedule
    let (id, db) := newUuid db
    d.checkPolicy
    ensure ((scheduleById db id).isNone) (.mk' .uniqueViolation "schedules_pkey")
    let r := newSchedule env name d actor
    let db ← writeSchedule id (scheduleAdmissionOwner r db) db
    .ok (r.result .created id, db)
  | some (id, s) => do
    ensure (s.target.fieldText? "kind" = some "job") (tq422 "reserved maintenance schedule")
    let same := d.sameAs s.toScheduleRow
    match expected with
    | none => do
      ensure (same ∧ (s.state = .paused) = d.paused)
        (scheduleConflict "schedule identity mismatch" "schedule_mismatch" s.version)
      .ok (s.result .unchanged id, db)
    | some version => do
      ensure (version = s.version)
        (scheduleConflict "schedule version conflict" "schedule_version_conflict" s.version)
      ensure (s.state ≠ .retired) (scheduleConflict "schedule is retired" "schedule_retired" s.version)
      if same ∧ s.state = d.state then .ok (s.result .unchanged id, db)
      else do
        d.checkPolicy
        let r := redefined env s.toScheduleRow d actor
        let db ← writeSchedule id (scheduleAdmissionOwner r db) db
        .ok (r.result .updated id, db)

/-- The hash of a stored definition. -/
def definitionHash (env : Env) (s : ScheduleRow) : String :=
  env.sha256 (Jsonb.text (.build [("target", s.target), ("recurrence", s.recurrence),
    ("catchup_policy", .str s.catchupPolicy.text), ("max_catchup", .ofInt s.maxCatchup),
    ("paused", .bool (s.state = .paused)), ("overlap", .str s.overlapPolicy.text),
    ("max_lateness_seconds", intJson s.maxLatenessSeconds)]))

def reservedHeader (definition : Jsonb) : Bool :=
  (((definition.field? "target").bind (·.field? "headers")).any (·.hasKey "taskq_schedule"))

/-- `COALESCE((definition->>'paused')::boolean, false)`. -/
def wantsPaused (env : Env) (definition : Jsonb) : Call Bool := do
  let paused ← castText env.parseBool definition "paused"
  .ok (paused.getD false)

/-- Clear the pause audit of a schedule that is about to run again. -/
def clearAudit (env : Env) (name : Option String) (definition : Jsonb) (db : Db) : Call Db := do
  let paused ← wantsPaused env definition
  match name.bind (scheduleByName db) with
  | none => .ok db
  | some (id, s) =>
    if paused then .ok db
    else writeSchedule id { s.toScheduleRow with pausedAudit := none } db

/-- Whether a write counts as a change of the row. -/
def WriteOutcome.changed (o : WriteOutcome) : Bool := o = .created || o = .updated

/-- `put_schedule`. -/
def putSchedule (env : Env) (name : Option String) (definition : Jsonb) (actor : Option String)
    (expected : Option ℤ) (db : Db) : Call (WriteResult × Db) := do
  ensure env.attested attestationRequired
  ensure (reservedHeader definition = false) (tq422 "taskq_schedule header is reserved")
  let db ← clearAudit env name definition db
  let (result, db) ← putScheduleUnattested env name definition actor expected db
  match scheduleById db result.scheduleId with
  | none => .ok (result, db)
  | some s => do
    let db ← writeSchedule result.scheduleId { s.toScheduleRow with
      manifestKey := if s.manifestKey = "legacy" then s.name else s.manifestKey
      displayName := if s.displayName = "legacy" then s.name else s.displayName
      definitionHash := definitionHash env s.toScheduleRow
      consecutiveDefinitionErrors :=
        if result.outcome = .updated then 0 else s.consecutiveDefinitionErrors
      pausedAudit := if result.outcome = .updated then none else s.pausedAudit } db
    .ok (result, db)

end Put

section Managed

/-- What `put_managed_schedule` records besides the definition. -/
structure Metadata where
  ownerNamespace : String
  source : String
  manifestKey : String
  displayName : String
  definitionHash : String
  overlapPolicy : Option OverlapPolicy
  maxLatenessSeconds : Option ℤ
  deriving DecidableEq, Repr

def Metadata.ok (m : Metadata) (name : Option String) : Bool :=
  isSlug "_-" 63 m.ownerNamespace && isSlug "_-" 63 m.source &&
  isSlug "_.-" m.manifestKey.length m.manifestKey &&
  name = some (m.ownerNamespace ++ "." ++ m.manifestKey) &&
  (name.all fun n => octetLength n ≤ 120) && keyBytesOk m.displayName &&
  isSha256 m.definitionHash && m.maxLatenessSeconds.all fun n => 0 ≤ n ∧ n ≤ 31536000

/-- The schedule belongs to the same manifest entry. -/
def Metadata.sameOwner (m : Metadata) (s : ScheduleRow) : Bool :=
  s.ownerNamespace = m.ownerNamespace && s.source = m.source && s.manifestKey = m.manifestKey

/-- The recorded metadata differs. -/
def Metadata.differs (m : Metadata) (s : ScheduleRow) : Bool :=
  s.displayName ≠ m.displayName || s.definitionHash ≠ m.definitionHash ||
  some s.overlapPolicy ≠ m.overlapPolicy || s.maxLatenessSeconds ≠ m.maxLatenessSeconds

/-- Record the metadata; a missing overlap policy violates its NOT NULL constraint. -/
def applyMetadata (m : Metadata) (s : ScheduleRow) : Call ScheduleRow :=
  match m.overlapPolicy with
  | none => .error (.mk' .notNullViolation "overlap_policy")
  | some overlap => .ok { s with
      ownerNamespace := m.ownerNamespace, source := m.source, manifestKey := m.manifestKey
      displayName := m.displayName, definitionHash := m.definitionHash, overlapPolicy := overlap
      maxLatenessSeconds := m.maxLatenessSeconds }

/-- A change of metadata alone: a new version without a claim, at the old place in the
recurrence. -/
def remarked (env : Env) (s : ScheduleRow) (actor : Option String) : ScheduleRow :=
  { s.invalidated with
    consecutiveDefinitionErrors := 0, pausedAudit := none, version := s.version + 1
    lastError := none, updatedBy := actor.getD "", updatedAt := env.now }

/-- `put_managed_schedule`. -/
def putManagedSchedule (env : Env) (name : Option String) (definition : Jsonb) (m : Metadata)
    (actor : Option String) (expected : Option ℤ) (db : Db) : Call (WriteResult × Db) := do
  ensure env.attested attestationRequired
  ensure (m.ok name ∧ reservedHeader definition = false) (tq422 "invalid managed schedule request")
  let before := (name.bind (scheduleByName db)).map (·.2.toScheduleRow)
  ensure (before.all m.sameOwner)
    (.because .tq409 "schedule owner mismatch" "schedule_owner_mismatch")
  let db ← clearAudit env name definition db
  let (result, db) ← putScheduleUnattested env name definition actor expected db
  match scheduleById db result.scheduleId with
  | none => .ok (result, db)
  | some s => do
    let marked ← applyMetadata m s.toScheduleRow
    if result.outcome = .unchanged ∧ before.any m.differs then do
      let r := remarked env marked actor
      let db ← writeSchedule result.scheduleId r db
      .ok (r.result .updated result.scheduleId, db)
    else do
      let changed := result.outcome.changed
      let r := { marked with
        consecutiveDefinitionErrors := if changed then 0 else marked.consecutiveDefinitionErrors
        pausedAudit := if changed then none else marked.pausedAudit }
      let db ← writeSchedule result.scheduleId r db
      .ok (r.result result.outcome result.scheduleId, db)

end Managed

section State

/-- `retire_schedule`. -/
def retireSchedule (env : Env) (name : String) (expected : Option ℤ) (actor : Option String)
    (db : Db) : Call (WriteResult × Db) := do
  ensure env.attested attestationRequired
  ensure (expected.any (0 < ·) ∧ actorOk actor) (tq422 "expected version and actor are required")
  match (scheduleByName db name).filter fun s => s.2.target.fieldText? "kind" = some "job" with
  | none => .error noSuchSchedule
  | some (id, s) => do
    ensure (expected = some s.version)
      (scheduleConflict "schedule version conflict" "schedule_version_conflict" s.version)
    if s.state = .retired then .ok (s.result .alreadyRetired id, db)
    else do
      let r : ScheduleRow := { s.invalidated with
        state := .retired, retiredAt := some env.now, version := s.version + 1
        updatedBy := actor.getD "", updatedAt := env.now }
      let db ← writeSchedule id r db
      .ok (r.result .retired id, db)

def Db.putDecision (db : Db) (id : Uuid) (d : Decision) : Db :=
  { db with scheduling := { db.scheduling with decisions := db.scheduling.decisions.put id d } }

@[simp] theorem Db.putDecision_toCore (db : Db) (id : Uuid) (d : Decision) :
    (db.putDecision id d).toCore = db.toCore := rfl

/-- `set_schedule_state`: pause a schedule where it is, or resume it from now. -/
def setScheduleState (env : Env) (name : String) (active : Bool) (expected : Option ℤ)
    (actor reason : Option String) (db : Db) : Call (WriteResult × Db) := do
  ensure env.attested attestationRequired
  ensure (expected.any (0 < ·) ∧ actorOk actor ∧
    reason.any fun r => 1 ≤ octetLength r && octetLength r ≤ 500)
    (tq422 "invalid schedule state request")
  let (token, db) := newUuid db
  let state : ScheduleState := if active then .active else .paused
  match (scheduleByName db name).filter fun s => s.2.target.fieldText? "kind" = some "job" with
  | none => .error noSuchSchedule
  | some (id, s) => do
    ensure (expected = some s.version)
      (scheduleConflict "schedule version conflict" "schedule_version_conflict" s.version)
    ensure (s.state ≠ .retired) (.mk' .tq409 "schedule is retired")
    if s.state = state then .ok (s.result .unchanged id, db)
    else do
      let r : ScheduleRow := { s.toScheduleRow with
        state := state, initialized := if active then false else s.initialized
        nextFireAt := if active then env.now else s.nextFireAt, version := s.version + 1
        claim := none, retryNotBefore := none
        consecutiveDefinitionErrors := if active then 0 else s.consecutiveDefinitionErrors
        pausedAudit := if active then none else some ⟨reason.getD "", actor.getD "", env.now⟩
        updatedBy := actor.getD "", updatedAt := env.now }
      let db ← writeSchedule id r db
      let (decision, db) := newUuid db
      .ok (r.result .updated id, db.putDecision decision
        ⟨id, token, r.version, env.now, r.nextFireAt, r.nextFireAt,
          if active then .resumed else .paused, 0, 0, .build [("reason", .ofText? reason)],
          actor.getD "", env.now⟩)

/-- `set_schedule_smear`. -/
def setScheduleSmear (env : Env) (name : Option String) (smear : Option ℤ) (db : Db) : Call Db := do
  ensure (name.any fun n => 1 ≤ octetLength n ∧ octetLength n ≤ 120) (tq422 "invalid schedule name")
  ensure (smear.all fun n => 1 ≤ n ∧ n ≤ 3600) (tq422 "smear_seconds must be NULL or 1..3600")
  match name.bind (scheduleByName db) with
  | none => .error noSuchSchedule
  | some (id, s) =>
    if s.smearSeconds = smear then .ok db
    else writeSchedule id { s.toScheduleRow with smearSeconds := smear, updatedAt := env.now } db

end State

end Taskq
