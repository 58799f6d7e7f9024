import Mathlib.Data.Int.Log
import Taskq.Library.Search
import Taskq.Library.WallClock
import Taskq.Model.Fire

/-! The evaluator of the scheduler process: the occurrences and the next instant that it proposes for a claimed
schedule. The cron library and the time zone database are parameters. Instants have no bounds. -/
namespace Taskq
open Relational

section Cron

/-- `str.isspace`. -/
def isSpace (c : Char) : Bool :=
  (9 ≤ c.toNat && c.toNat ≤ 13) || (28 ≤ c.toNat && c.toNat ≤ 32) || (0x2000 ≤ c.toNat && c.toNat ≤ 0x200a) ||
  [0x85, 0xa0, 0x1680, 0x2028, 0x2029, 0x202f, 0x205f, 0x3000].contains c.toNat

/-- `str.split()`: the words between runs of blanks. -/
def splitWords (s : String) : List (List Char) := (s.toList.splitOnP isSpace).filter (· ≠ [])

/-- `_CRON_PART_RE`: `^(?:\*|[0-9]+)(?:-[0-9]+)?(?:/[1-9][0-9]*)?$`. -/
def isCronPart (part : List Char) : Bool :=
  let pieces := part.splitOn '/'
  let base := (pieces.headD []).splitOn '-'
  (base.headD [] = ['*'] || isDigits (base.headD [])) && base.length ≤ 2 && base.tail.all isDigits &&
  pieces.length ≤ 2 && pieces.tail.all fun step => isDigits step && step.head? ≠ some '0'

/-- `int` of a text, which refuses more than 4300 digits. -/
def intOfText (digits : List Char) : Except String ℤ := do
  ensure (digits.length ≤ 4300) "Exceeds the limit (4300 digits) for integer string conversion"
  ensure (isDigits digits = true) ("invalid literal for int() with base 10: '" ++ String.ofList digits ++ "'")
  .ok (digitsValue digits)

/-- The bounds of one part of a cron field. -/
def validateCronPart (minimum maximum : ℤ) (part : List Char) : Except String Unit := do
  ensure (isCronPart part = true) "cron uses unsupported syntax"
  let pieces := part.splitOn '/'
  let base := pieces.headD []
  pieces.tail.forM fun step => do
    let n ← intOfText step
    ensure (0 < n) "cron step must be positive"
  if base = ['*'] then .ok ()
  else do
    let range := base.splitOn '-'
    let start ← intOfText (range.headD [])
    let stop ← intOfText (range.getLastD [])
    ensure (¬(start < minimum ∨ start > maximum ∨ stop < minimum ∨ stop > maximum))
      "cron value is outside its field bounds"
    ensure (¬(range.length = 2 ∧ start > stop)) "cron ranges must be ascending"

/-- `_CRON_BOUNDS`. -/
def cronFieldBounds : List (ℤ × ℤ) := [(0, 59), (0, 23), (1, 31), (1, 12), (0, 7)]

/-- A time zone: what clocks show there. -/
abbrev ZoneInfo := WallClock

/-- `validate_cron`. -/
def validateCron (zoneInfo : String → Option ZoneInfo) (expression timezone : String) : Except String Unit := do
  let fields := splitWords expression
  ensure (fields.length = 5) "cron expression must contain exactly five fields"
  (fields.zip cronFieldBounds).forM fun field =>
    (field.1.splitOn ',').forM (validateCronPart field.2.1 field.2.2)
  ensure ((zoneInfo timezone).isSome = true) "unknown IANA timezone"

/-- What `croniter` knows of an expression: the wall times that match it, and the one after or before a wall
time, when there is one. -/
structure Croniter where
  fires : Set Time
  getNext : Time → Option Time
  getPrev : Time → Option Time
  forward : Visits getNext fires
  backward : @Visits Timeᵒᵈ _ getPrev fires

/-- What the evaluator raises: a validation error with the field that it names, or an error of Python or of the
cron library. -/
inductive EvaluationError where
  | validation (field : String)
  | badDate
  | zeroDivision
  deriving DecidableEq, Repr

/-- `_resolved_wall_time`: the earlier fold of a wall time, none in a gap. -/
def resolvedWallTime (zone : ZoneInfo) (localNaive : Time) : Option Time :=
  let candidate := localNaive - zone.reading localNaive
  let roundtrip := zone.wall candidate
  if roundtrip ≠ localNaive then none else some candidate

/-- `_cron_next`. -/
def cronNext (cron : Croniter) (zone : ZoneInfo) (after : Time) : Except EvaluationError Time :=
  search cron.getNext (fun wall => (resolvedWallTime zone wall).filter (after < ·)) .badDate
    (.validation "recurrence") 370 (zone.wall after)

/-- `_cron_latest`. -/
def cronLatest (cron : Croniter) (zone : ZoneInfo) (atOrBefore : Time) : Except EvaluationError Time :=
  search cron.getPrev (fun wall => (resolvedWallTime zone wall).filter (· ≤ atOrBefore)) .badDate
    (.validation "recurrence") 370 (zone.wall atOrBefore + 1)

end Cron

section Evaluate

/-- The libraries of the process. -/
structure Libraries where
  croniter : String → Croniter
  zoneInfo : String → Option ZoneInfo

variable (libraries : Libraries)

/-- `isinstance(recurrence.get("interval_seconds"), int)`, booleans apart. -/
def intervalSeconds (recurrence : Jsonb) : Option ℤ :=
  match recurrence.field? "interval_seconds" with
  | some (.num n) => if n.scale = 0 then some n.unscaled else none
  | _ => none

/-- The expression and the zone of a cron recurrence, once they are valid. -/
def cronOf (recurrence : Jsonb) : Except EvaluationError (Croniter × ZoneInfo) :=
  match recurrence.field? "expression", recurrence.field? "timezone" with
  | some (.str expression), some (.str timezone) => do
    let _ ← (validateCron libraries.zoneInfo expression timezone).mapError fun _ => .validation "recurrence"
    match libraries.zoneInfo timezone with
    | some zone => .ok (libraries.croniter expression, zone)
    | none => .error (.validation "recurrence")
  | _, _ => .error (.validation "recurrence")

/-- `_next`. -/
def nextInstant (recurrence : Jsonb) (after : Time) : Except EvaluationError Time :=
  if recurrence.field? "kind" = some (.str "interval") then
    match intervalSeconds recurrence with
    | some n => do
      ensure (60 ≤ n ∧ n ≤ 31536000) (.validation "recurrence")
      .ok (after + seconds n)
    | none => .error (.validation "recurrence")
  else if recurrence.field? "kind" = some (.str "cron") then do
    let (cron, zone) ← cronOf libraries recurrence
    cronNext cron zone after
  else .error (.validation "recurrence")

/-- `timedelta.total_seconds`. -/
def totalSeconds (elapsed : ℤ) : ℚ := toDouble (elapsed / 1000000)

/-- The latest instant up to the cutoff, as `fire_once` looks for it. -/
def latestInstant (recurrence : Jsonb) (due cutoff : Time) : Except EvaluationError Time :=
  if recurrence.field? "kind" = some (.str "interval") then
    match intervalSeconds recurrence with
    | some n => do
      ensure (n ≠ 0) .zeroDivision
      let missed := ⌊totalSeconds (cutoff - due) / n⌋
      .ok (due + seconds (missed * n))
    | none => .error (.validation "recurrence")
  else do
    let (cron, zone) ← cronOf libraries recurrence
    cronLatest cron zone cutoff

structure ScheduleEvaluation where
  occurrences : List Time
  nextFireAt : Time
  deriving DecidableEq, Repr

/-- The loop of `fire_all`, with the number of occurrences that it may still add. -/
def fireAll (recurrence : Jsonb) (cutoff : Time) : ℕ → Time → Except EvaluationError ScheduleEvaluation
  | 0, cursor => .ok ⟨[], cursor⟩
  | n+1, cursor =>
    if cursor ≤ cutoff then do
      let next ← nextInstant libraries recurrence cursor
      let rest ← fireAll recurrence cutoff n next
      .ok ⟨cursor :: rest.occurrences, rest.nextFireAt⟩
    else .ok ⟨[], cursor⟩

/-- `_evaluate_base`. -/
def evaluateBase (recurrence : Jsonb) (catchupPolicy : CatchupPolicy) (maxCatchup : ℤ) (initialized : Bool)
    (due cutoff : Time) : Except EvaluationError ScheduleEvaluation := do
  ensure (due ≤ cutoff ∧ 1 ≤ maxCatchup ∧ maxCatchup ≤ 100) (.validation "schedule_claim")
  if initialized = false ∨ catchupPolicy = .skip then do
    let next ← nextInstant libraries recurrence cutoff
    .ok ⟨[], next⟩
  else if catchupPolicy = .fireOnce then do
    let latest ← latestInstant libraries recurrence due cutoff
    ensure (due ≤ latest) (.validation "schedule_claim")
    let next ← nextInstant libraries recurrence cutoff
    .ok ⟨[latest], next⟩
  else fireAll libraries recurrence cutoff maxCatchup.toNat due

/-- Move an evaluation along the time line. -/
def ScheduleEvaluation.shift (e : ScheduleEvaluation) (off : ℤ) : ScheduleEvaluation :=
  ⟨e.occurrences.map (· + off), e.nextFireAt + off⟩

/-- `evaluate_schedule`. -/
def evaluateSchedule (recurrence : Jsonb) (catchupPolicy : CatchupPolicy) (maxCatchup : ℤ) (initialized : Bool)
    (nextFireAt asOf : Time) (smearOffsetSeconds : ℤ) : Except EvaluationError ScheduleEvaluation :=
  if smearOffsetSeconds ≠ 0 then do
    let off := seconds smearOffsetSeconds
    let base ← evaluateBase libraries recurrence catchupPolicy maxCatchup initialized (nextFireAt - off) (asOf - off)
    .ok (base.shift off)
  else evaluateBase libraries recurrence catchupPolicy maxCatchup initialized nextFireAt asOf

/-- The evaluation of a claim. -/
def evaluateClaim (c : ClaimedSchedule) (smearOffsetSeconds : ℤ) : Except EvaluationError ScheduleEvaluation :=
  evaluateSchedule libraries c.recurrence c.catchupPolicy c.maxCatchup c.initialized c.nextFireAt c.asOf
    smearOffsetSeconds

/-- The fire call that the engine makes with an evaluation of a claim. -/
def ScheduleEvaluation.fireArgs (e : ScheduleEvaluation) (c : ClaimedSchedule) : FireArgs :=
  ⟨c.scheduleId, c.token, c.definitionVersion, e.occurrences, e.nextFireAt⟩

end Evaluate

end Taskq
