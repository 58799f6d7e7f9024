import Taskq.Invariants.Timetable

/-! Retiring schedules: the check that ties the audit of a pause to the paused state holds a retired row
back. -/
namespace Taskq
open Relational

variable {env : Env} {db db' : Db} {id : Uuid} {r : Schedule}

/-- The call retires the schedule and leaves no claim on it. -/
def Retires (env : Env) (id : Uuid) (r : Schedule) (actor : Option String) (db : Db) : Prop :=
  ∃ answer db', retireSchedule env r.name (some r.version) actor db = .ok (answer, db') ∧
    answer.outcome = .retired ∧ ∃ r', db'.scheduling.schedules.get? id = some r' ∧ r'.state = .retired ∧
      r'.claim = none

/-- The row that a retirement writes. -/
def retiredRow (env : Env) (r : ScheduleRow) (actor : Option String) : ScheduleRow :=
  { r.invalidated with
    state := .retired, retiredAt := some env.now, version := r.version + 1
    updatedBy := actor.getD "", updatedAt := env.now }

/-- The row passes the checks exactly when no pause is on record. -/
theorem retiredRow_checks (env : Env) (r : Schedule) (actor : Option String) :
    (retiredRow env r.toScheduleRow actor).checksOk = true ↔ r.pausedAudit = none := by
  have before := r.checks
  simp only [ScheduleRow.checksOk, Bool.and_eq_true, decide_eq_true_eq, and_assoc] at before
  obtain ⟨low, high, version, -, few, most, -⟩ := before
  have later : 0 < r.version + 1 := by omega
  have shape : (retiredRow env r.toScheduleRow actor).checksOk = r.pausedAudit.isNone := by
    cases audit : r.pausedAudit <;>
      simp [ScheduleRow.checksOk, retiredRow, ScheduleRow.invalidated, audit, low, high, later, few, most]
  rw [shape, Option.isNone_iff_eq_none]

/-- With the version and an actor, a call that finds the schedule comes down to its one write. -/
theorem retireSchedule_eq {actor : Option String} (attested : env.attested = true) (valid : actorOk actor = true)
    (found : scheduleByName db r.name = some (id, r)) (live : r.state ≠ .retired) :
    retireSchedule env r.name (some r.version) actor db =
      if r.target.fieldText? "kind" = some "job" then
        (writeSchedule id (retiredRow env r.toScheduleRow actor) db).map fun db =>
          ((retiredRow env r.toScheduleRow actor).result .retired id, db)
      else .error noSuchSchedule := by
  have positive : 0 < r.version := by
    have checks := r.checks
    simp only [ScheduleRow.checksOk, Bool.and_eq_true, decide_eq_true_eq] at checks
    exact checks.1.1.1.1.2
  have arguments : (some r.version).any (0 < ·) ∧ actorOk actor = true := by simp [positive, valid]
  simp only [retireSchedule, found, attested]
  by_cases job : r.target.fieldText? "kind" = some "job"
  · simp [Option.filter_some, job, ensure, arguments, live, bind, Except.bind, Except.map]
    rfl
  · simp [Option.filter_some, job, ensure, arguments, bind, Except.bind]

/-- How the call on a live schedule ends. -/
theorem retireSchedule_ends {actor : Option String} (attested : env.attested = true)
    (valid : actorOk actor = true) (found : scheduleByName db r.name = some (id, r)) (live : r.state ≠ .retired) :
    (Retires env id r actor db ↔ r.target.fieldText? "kind" = some "job" ∧ r.pausedAudit = none) ∧
      (retireSchedule env r.name (some r.version) actor db = .error (checkViolation "schedules") ↔
        r.target.fieldText? "kind" = some "job" ∧ r.pausedAudit ≠ none) := by
  have shape := retireSchedule_eq attested valid found live
  have checks := retiredRow_checks env r actor
  unfold Retires
  rw [shape]
  by_cases job : r.target.fieldText? "kind" = some "job"
  · by_cases audit : r.pausedAudit = none
    · have write : writeSchedule id (retiredRow env r.toScheduleRow actor) db =
          .ok (db.putSchedule id ⟨_, checks.mpr audit⟩) := by
        simp [writeSchedule, storeSchedule, checks.mpr audit, bind, Except.bind]
      rw [if_pos job, write]
      refine ⟨iff_of_true ⟨_, _, rfl, rfl, _, Table.get?_put_self _ _ _, rfl, rfl⟩ ⟨job, audit⟩,
        iff_of_false (by simp [Except.map]) (by simp [audit])⟩
    · have write : writeSchedule id (retiredRow env r.toScheduleRow actor) db =
          .error (checkViolation "schedules") := by
        simp [writeSchedule, storeSchedule, mt checks.mp audit, bind, Except.bind]
      rw [if_pos job, write]
      exact ⟨iff_of_false (by simp [Except.map]) (by simp [audit]), iff_of_true rfl ⟨job, audit⟩⟩
  · rw [if_neg job]
    exact ⟨iff_of_false (by simp) (by simp [job]),
      iff_of_false (by simp [noSuchSchedule, checkViolation, SqlError.mk']) (by simp [job])⟩

/-- A live schedule retires unless it runs the maintenance or its pause is on record; with a pause on record
a constraint is violated. -/
theorem live_schedules_retire {site : Site} {allowed : System → Env → Command → Prop} {s : System}
    {actor : Option String} (reachable : System.Reachable site allowed s)
    (stored : s.db.scheduling.schedules.get? id = some r) (live : r.state ≠ .retired)
    (attested : env.attested = true) (valid : actorOk actor = true) :
    (Retires env id r actor s.db ↔ r.target.fieldText? "kind" = some "job" ∧ r.pausedAudit = none) ∧
      (retireSchedule env r.name (some r.version) actor s.db = .error (checkViolation "schedules") ↔
        r.target.fieldText? "kind" = some "job" ∧ r.pausedAudit ≠ none) :=
  retireSchedule_ends attested valid (reachable.timetabled.byName stored) live

/-- A schedule of one job of a queue every minute. -/
def everyMinute : Jsonb :=
  .build [("target", .build [("kind", .str "job"), ("queue", .str "q"), ("job_type", .str "t")]),
    ("recurrence", .build [("kind", .str "interval"), ("interval_seconds", .ofInt 60)]),
    ("catchup_policy", .str "skip"), ("max_catchup", .ofInt 1)]

def oneSchedule : List (Time × Command) :=
  [(0, .ensureQueue (some "q") none), (0, .putSchedule (some "s") everyMinute (some "a") none)]

/-- A new schedule retires. -/
theorem live_schedules_retire_new : ∃ (s : System) (id : Uuid) (r : Schedule),
    s.db.scheduling.schedules.get? id = some r ∧ Retires (.alone .digits 0 9) id r (some "a") s.db := by
  have played : System.plays .digits oneSchedule (.installed .digits 0) (fun s =>
      (scheduleByName s.db "s").any fun e => e.2.state = .active && e.2.pausedAudit = none &&
        e.2.target.fieldText? "kind" = some "job") = true := by decide +kernel
  obtain ⟨s, run, there⟩ := System.plays_run anyCall played fun _ _ _ => trivial
  obtain ⟨⟨id, r⟩, found, there⟩ := (Option.any_eq_true _ _).mp there
  simp only [Bool.and_eq_true, decide_eq_true_eq] at there
  obtain ⟨⟨active, audit⟩, job⟩ := there
  exact ⟨s, id, r, scheduleByName_eq_some found, (live_schedules_retire ⟨0, run⟩ (scheduleByName_eq_some found)
    (by rw [active]; decide) rfl (by decide)).1.mpr ⟨job, audit⟩⟩

/-- A schedule that an operator paused for a reason does not. -/
theorem live_schedules_retire_paused : ∃ (s : System) (id : Uuid) (r : Schedule),
    System.Reachable .digits anyCall s ∧ s.db.scheduling.schedules.get? id = some r ∧ r.state = .paused ∧
    ¬Retires (.alone .digits 0 9) id r (some "a") s.db ∧
    retireSchedule (.alone .digits 0 9) r.name (some r.version) (some "a") s.db =
      .error (checkViolation "schedules") := by
  have played : System.plays .digits (oneSchedule ++ [(0, .setScheduleState "s" false (some 1) (some "a") (some "r"))])
      (.installed .digits 0) (fun s => (scheduleByName s.db "s").any fun e => e.2.state = .paused &&
        e.2.pausedAudit ≠ none && e.2.target.fieldText? "kind" = some "job") = true := by decide +kernel
  obtain ⟨s, run, there⟩ := System.plays_run anyCall played fun _ _ _ => trivial
  obtain ⟨⟨id, r⟩, found, there⟩ := (Option.any_eq_true _ _).mp there
  simp only [Bool.and_eq_true, decide_eq_true_eq] at there
  obtain ⟨⟨paused, audit⟩, job⟩ := there
  have reachable : System.Reachable .digits anyCall s := ⟨0, run⟩
  have stored := scheduleByName_eq_some found
  have byName := reachable.timetabled.byName stored
  obtain ⟨retires, violates⟩ := @retireSchedule_ends (.alone .digits 0 9) s.db id r (some "a") rfl
    (by decide) byName (by rw [paused]; decide)
  exact ⟨s, id, r, reachable, stored, paused, fun ok => audit (retires.mp ok).2, violates.mpr ⟨job, audit⟩⟩

end Taskq
