import Taskq.Contract.Overlaps
import Taskq.Invariants.Cursors

/-! Firing over whole runs: occurrences come in order and once, and the token of a claim acts once. -/
namespace Taskq
open Relational

variable {site : Site} {s t u : System} {env env' : Env} {db db' : Db} {command : Command} {id token : Uuid}
  {a a' : FireArgs} {e : ErrorArgs} {gone : Set Time} {before now : Time}

/-- A fire call that was carried out, neither answered from the record nor refused. -/
def FiresAnew (env : Env) (a : FireArgs) (db db' : Db) : Prop :=
  ∃ answer, fireSchedule env a db = .ok (answer, db') ∧ answer.replayed = false ∧ answer.outcome ≠ .stale

/-- A replayed action reports that it is one, or that it is stale. -/
theorem replayedAction_marked {r : ScheduleRow} {hash : String} {answer : ActionResult}
    (replayed : replayedAction id r token hash = some answer) : answer.replayed = true ∨ answer.outcome = .stale := by
  unfold replayedAction at replayed
  split at replayed
  · cases replayed
  · split_ifs at replayed <;> cases replayed
    · exact .inl rfl
    · exact .inr rfl

theorem FiresAnew.run (fires : FiresAnew env a db db') : ∃ answer, FireRun env a answer db db' := by
  obtain ⟨answer, run, fresh, landed⟩ := fires
  obtain ⟨-, r, -, replayed | ⟨-, -, rfl⟩⟩ | fired := fireSchedule_runs run
  · obtain marked | stale := replayedAction_marked replayed
    · simp [fresh] at marked
    · exact absurd stale landed
  · exact absurd rfl landed
  · exact ⟨answer, fired⟩

/-- An error call that changes something has the current claim, and gives it up. -/
theorem scheduleError_runs {answer : ActionResult} (run : scheduleError env e db = .ok (answer, db')) :
    db' = db ∨ ∃ (r stored : Schedule) (claim : ScheduleClaim),
      db.scheduling.schedules.get? e.scheduleId = some r ∧
      currentClaim env r.toScheduleRow e.token e.definitionVersion = some claim ∧ stored.claim = none ∧
      db'.scheduling.schedules = db.scheduling.schedules.put e.scheduleId stored := by
  simp only [scheduleError, seq_eq_ok] at run
  obtain ⟨-, -, -, -, run⟩ := run
  split at run
  · cases run
  · rename_i r found
    split at run
    · cases run
      exact .inl rfl
    · split at run
      · cases run
        exact .inl rfl
      · rename_i claim current
        simp only [errorUnderClaim, newUuid, seq_eq_ok] at run
        obtain ⟨written, write, finish⟩ := run
        cases finish
        obtain ⟨stored, shape, rfl⟩ := writeSchedule_frame write
        refine .inr ⟨r, stored, claim, found, current, ?_, rfl⟩
        rw [shape]
        rfl

section Order

/-- Whatever moves a cursor keeps it past what it is past. -/
theorem Cursor.Past.next {k k' : Cursor} {change : CursorChange} (past : k.Past now gone) (ended : ∀ d ∈ gone, d ≤ now)
    (step : Cursor.Step now change k k') : k'.Past now gone := by
  by_cases fires : ∃ ds, change = .fire ds
  · obtain ⟨ds, rfl⟩ := fires
    exact (past.fire step).1.mono le_rfl Set.subset_union_left
  · exact past.step ended step (not_exists.mp fires)

/-- A call leaves the schedules alone or moves their cursors. -/
theorem Command.exec_calendar (run : command.exec env db = .ok db') :
    db'.scheduling.schedules = db.scheduling.schedules ∨ ∃ S, CalendarSteps env.now S db.calendar db'.calendar := by
  by_cases fires : ∃ a, command = .fireSchedule a
  · obtain ⟨a, rfl⟩ := fires
    obtain ⟨answer, run⟩ := map_snd_eq_ok.mp run
    exact .inr ⟨_, fireSchedule_calendar run⟩
  · exact (Command.exec_unfired run (not_exists.mp fires)).schedules.imp_right fun moves => ⟨_, moves⟩

/-- The schedule's cursor is past a set of instants that are over. -/
structure Behind (id : Uuid) (gone : Set Time) (now : Time) (db : Db) : Prop where
  ended : ∀ d ∈ gone, d ≤ now
  past : ∀ r, db.scheduling.schedules.get? id = some r → r.cursor.Past now gone

theorem Behind.exec (behind : Behind id gone before db) (wait : before ≤ env.now) (run : command.exec env db = .ok db') :
    Behind id gone env.now db' := by
  have ended : ∀ d ∈ gone, d ≤ env.now := by
    intro d passed
    exact (behind.ended d passed).trans wait
  have start : ∀ r, db.scheduling.schedules.get? id = some r → r.cursor.Past env.now gone := by
    intro r stored
    exact (behind.past r stored).mono wait subset_rfl
  refine ⟨ended, ?_⟩
  obtain same | ⟨S, moves⟩ := Command.exec_calendar run
  · rw [same]
    exact start
  · refine moves.invariant (I := fun c => ∀ r, c.schedules.get? id = some r → r.cursor.Past env.now gone) ?_ start
    intro l c c' _ move kept r' there
    have row := move.row id
    rw [there] at row
    generalize earlier : c.schedules.get? id = old at row
    cases row with
    | same => exact kept r' earlier
    | change label step => exact (kept _ earlier).next ended step
    | retag same => exact same ▸ kept _ earlier
    | create _ born => exact born.past

theorem Behind.run (behind : Behind id gone s.clock s.db) (run : System.Run site clockForward s t) :
    Behind id gone t.clock t.db := by
  refine run.induction (I := fun t => Behind id gone t.clock t.db) behind ?_
  rintro t u env command behind forward ⟨-, -, run⟩
  exact behind.exec forward run

/-- A fire call that is carried out selects only instants after those that the cursor is past. -/
theorem Behind.fires (behind : Behind a.scheduleId gone before db) (fires : FiresAnew env a db db') :
    ∀ d ∈ gone, ∀ d' ∈ a.occurrences, d < d' := by
  obtain ⟨answer, ⟨found, -, accepted, -, -, -, -, -⟩⟩ := fires.run
  intro d passed d' selected
  have compiled := accepted.compiled (List.ne_nil_of_mem selected)
  exact ((behind.past _ found).compiled compiled d passed).trans_le (accepted.due d' selected).1

/-- After a fire call the cursor is past the occurrences that the call selected. -/
theorem FiresAnew.behind (fires : FiresAnew env a db db') (elapsed : Elapsed before db) (wait : before ≤ env.now) :
    Behind a.scheduleId {d | d ∈ a.occurrences} env.now db' := by
  obtain ⟨answer, fired⟩ := fires.run
  cases fired with
  | @intro r stored claim result mid decision d found current accepted performs later answered row after =>
    obtain ⟨held, -, -, own, -⟩ := currentClaim_eq_some.mp current
    have step : Cursor.Step env.now (.fire a.occurrences) r.cursor stored.cursor := by
      rw [row]
      exact .fire r.cursor claim a.occurrences a.nextFireAt _ held own.symm accepted.forward accepted.compiled
        accepted.first accepted.due
    obtain ⟨past, ended⟩ := ((elapsed.past _ _ found).mono wait subset_rfl).fire step
    refine ⟨ended, ?_⟩
    intro r' there
    subst after
    cases (Table.get?_put_self _ _ _).symm.trans there
    exact past.mono le_rfl Set.subset_union_right

/-- Over any run, the occurrences for which fire calls are carried out on one schedule strictly ascend: within a call,
and from every call to every later one, whatever was redefined, paused, resumed or pruned in between. -/
theorem occurrences_ascend {db' : Db} (reachable : System.Reachable site clockForward s) (forward : s.clock ≤ env.now)
    (first : System.Step site env (.fireSchedule a) s t) (carried : FiresAnew env a s.db t.db)
    (run : System.Run site clockForward t u) (second : FiresAnew env' a' u.db db')
    (same : a'.scheduleId = a.scheduleId) :
    a.occurrences.Pairwise (· < ·) ∧ ∀ d ∈ a.occurrences, ∀ d' ∈ a'.occurrences, d < d' := by
  obtain ⟨answer, ⟨-, -, accepted, -, -, -, -, -⟩⟩ := carried.run
  refine ⟨accepted.sorted, ?_⟩
  obtain ⟨-, -, -⟩ := first
  have behind := (carried.behind reachable.elapsed forward).run run
  exact (same ▸ behind).fires second

/-- The state after a call on a server that nothing else uses. -/
def System.next (s : System) (now : Time) (xid : ℕ) (db : Db) : System := ⟨db, now, xid, s.admitted ++ newJobs s.db db⟩

/-- A fire call was carried out, as a test. -/
def firesAnew (env : Env) (a : FireArgs) (db : Db) (p : Db → Bool) : Bool :=
  (fireSchedule env a db).toOption.any fun e => e.1.replayed = false && e.1.outcome ≠ .stale && p e.2

theorem firesAnew_iff {p : Db → Bool} (fires : firesAnew env a db p = true) : ∃ db', FiresAnew env a db db' ∧
    Command.exec env (.fireSchedule a) db = .ok db' ∧ p db' = true := by
  obtain ⟨⟨answer, db'⟩, call, fired⟩ := (Option.any_eq_true _ _).mp fires
  simp only [Bool.and_eq_true, decide_eq_true_eq] at fired
  have run := toOption_eq_some.mp call
  exact ⟨db', ⟨answer, run, fired.1⟩, map_snd_eq_ok.mpr ⟨answer, run⟩, fired.2⟩

/-- The occurrence of the first minute and that of the second. -/
theorem occurrences_ascend_minutes : ∃ (s t u : System) (db' : Db), System.Run .digits clockForward t u ∧
    FiresAnew (.alone .digits 60000000 9) firstFire s.db t.db ∧ FiresAnew (.alone .digits 120000000 20) secondFire u.db db' ∧
    ∀ d ∈ firstFire.occurrences, ∀ d' ∈ secondFire.occurrences, d < d' := by
  have played : System.plays .digits firstMinute (.installed .digits 0) (fun s =>
      decide (s.clock ≤ 60000000 ∧ s.xid < 9) &&
      firesAnew (.alone .digits 60000000 9) firstFire s.db fun db =>
        System.plays .digits [(120000000, .claimSchedules (some "w") (some 2) (some 300))] (s.next 60000000 9 db) fun u =>
          firesAnew (.alone .digits 120000000 20) secondFire u.db fun _ => true) = true := by
    decide +kernel
  obtain ⟨s, run, there⟩ := System.plays_forward played (by decide)
  obtain ⟨early, there⟩ := (Bool.and_eq_true _ _).mp there
  obtain ⟨forward, fresh⟩ := of_decide_eq_true early
  obtain ⟨db, first, step, there⟩ := firesAnew_iff there
  obtain ⟨u, between, there⟩ := System.plays_forward there (by simp [System.next])
  obtain ⟨db', second, -, -⟩ := firesAnew_iff there
  have ascend := occurrences_ascend ⟨0, run⟩ forward (.commit rfl fresh step) first between second rfl
  exact ⟨s, _, u, db', between, first, second, ascend.2⟩

end Order

section Restart

variable {name : Option String} {definition : Jsonb} {actor reason : Option String} {expected : Option ℤ}
  {answer : WriteResult}

/-- What a definition document gives the row of a schedule. -/
def ScheduleRow.defined (r : ScheduleRow) : Jsonb × Jsonb × CatchupPolicy × ℤ × ScheduleState :=
  (r.target, r.recurrence, r.catchupPolicy, r.maxCatchup, r.state)

/-- Calls that start a schedule over: a resume that changes its state, and a new or changed definition that leaves it
active. A managed definition whose metadata alone are new does not: it keeps its place in the recurrence. -/
inductive Restarts (env : Env) (id : Uuid) (db db' : Db) : Prop
  | resume {name : String} {expected : Option ℤ} {actor reason : Option String} {answer : WriteResult}
      (run : setScheduleState env name true expected actor reason db = .ok (answer, db'))
      (changed : answer.outcome = .updated) (own : answer.scheduleId = id) : Restarts env id db db'
  | define {name : Option String} {definition : Jsonb} {actor : Option String} {expected : Option ℤ}
      {answer : WriteResult} (run : putSchedule env name definition actor expected db = .ok (answer, db'))
      (changed : answer.outcome = .created ∨ answer.outcome = .updated) (active : answer.state = .active)
      (own : answer.scheduleId = id) : Restarts env id db db'
  | manage {name : Option String} {definition : Jsonb} {m : Metadata} {actor : Option String} {expected : Option ℤ}
      {answer : WriteResult} (run : putManagedSchedule env name definition m actor expected db = .ok (answer, db'))
      (changed : (db.scheduling.schedules.get? id).map (·.defined) ≠ (db'.scheduling.schedules.get? id).map (·.defined))
      (active : answer.state = .active) (own : answer.scheduleId = id) : Restarts env id db db'

/-- The row of a schedule that waits to be compiled again, with no claim on it. -/
def Raw (id : Uuid) (db : Db) : Prop :=
  ∀ r, db.scheduling.schedules.get? id = some r → r.initialized = false ∧ r.claim = none

theorem setScheduleState_raw {name : String} {active : Bool}
    (run : setScheduleState env name active expected actor reason db = .ok (answer, db'))
    (changed : answer.outcome = .updated) (resumed : active = true) : Raw answer.scheduleId db' := by
  simp only [setScheduleState, newUuid, seq_eq_ok] at run
  obtain ⟨-, -, -, -, run⟩ := run
  split at run
  · cases run
  · rename_i id r found
    simp only [seq_eq_ok] at run
    obtain ⟨-, -, -, -, run⟩ := run
    by_cases same : r.state = if active then .active else .paused
    · rw [if_pos same] at run
      cases run
      cases changed
    · rw [if_neg same] at run
      obtain ⟨written, write, finish⟩ := seq_eq_ok.mp run
      cases finish
      obtain ⟨row, shape, rfl⟩ := writeSchedule_frame write
      intro r' there
      cases (Table.get?_put_self _ _ _).symm.trans there
      rw [shape, resumed]
      exact ⟨rfl, rfl⟩

theorem putScheduleUnattested_raw (run : putScheduleUnattested env name definition actor expected db = .ok (answer, db'))
    (changed : answer.outcome = .created ∨ answer.outcome = .updated) (active : answer.state = .active) :
    Raw answer.scheduleId db' := by
  simp only [putScheduleUnattested, newUuid, seq_eq_ok] at run
  obtain ⟨-, -, -, -, -, -, d, parse, run⟩ := run
  split at run
  · simp only [seq_eq_ok] at run
    obtain ⟨-, -, -, -, -, -, written, write, finish⟩ := run
    cases finish
    obtain ⟨row, shape, rfl⟩ := writeSchedule_frame write
    intro r' there
    cases (Table.get?_put_self _ _ _).symm.trans there
    rw [shape]
    exact ⟨rfl, rfl⟩
  · rename_i id r found
    obtain ⟨-, -, run⟩ := seq_eq_ok.mp run
    split at run
    · obtain ⟨-, -, run⟩ := seq_eq_ok.mp run
      cases run
      obtain changed | changed := changed <;> cases changed
    · simp only [seq_eq_ok] at run
      obtain ⟨-, -, -, -, run⟩ := run
      split at run
      · cases run
        obtain changed | changed := changed <;> cases changed
      · simp only [seq_eq_ok] at run
        obtain ⟨-, -, written, write, finish⟩ := run
        cases finish
        obtain ⟨row, shape, rfl⟩ := writeSchedule_frame write
        have going : d.state = .active := active
        intro r' there
        cases (Table.get?_put_self _ _ _).symm.trans there
        rw [shape]
        simp [scheduleAdmissionOwner, redefined, ScheduleRow.invalidated, going]

theorem putSchedule_raw (run : putSchedule env name definition actor expected db = .ok (answer, db'))
    (changed : answer.outcome = .created ∨ answer.outcome = .updated) (active : answer.state = .active) :
    Raw answer.scheduleId db' := by
  simp only [putSchedule, seq_eq_ok] at run
  obtain ⟨-, -, -, -, cleared, -, ⟨result, put⟩, unattested, run⟩ := run
  split at run
  · rename_i gone
    cases run
    intro r there
    cases gone.symm.trans there
  · rename_i r found
    obtain ⟨written, write, finish⟩ := seq_eq_ok.mp run
    cases finish
    obtain ⟨row, shape, rfl⟩ := writeSchedule_frame write
    intro r' there
    cases (Table.get?_put_self _ _ _).symm.trans there
    rw [shape]
    exact putScheduleUnattested_raw unattested changed active r found

/-- Clearing the pause audit leaves every definition as it is. -/
theorem clearAudit_defined {cleared : Db} (clear : clearAudit env name definition db = .ok cleared) (id : Uuid) :
    (cleared.scheduling.schedules.get? id).map (·.defined) = (db.scheduling.schedules.get? id).map (·.defined) := by
  obtain ⟨paused, -, body⟩ := seq_eq_ok.mp clear
  split at body
  · cases body
    rfl
  · rename_i other r found
    obtain ⟨n, -, named⟩ := Option.bind_eq_some_iff.mp found
    split at body
    · cases body
      rfl
    · obtain ⟨row, shape, rfl⟩ := writeSchedule_frame body
      by_cases same : id = other
      · subst same
        rw [scheduleByName_eq_some named]
        change ((db.scheduling.schedules.put id row).get? id).map _ = _
        rw [Table.get?_put_self, Option.map_some, Option.map_some, shape]
        rfl
      · change ((db.scheduling.schedules.put other row).get? id).map _ = _
        rw [Table.get?_put_of_ne _ _ same]

/-- The answer of a write is about the stored row: a schedule that the call has found as it is, or has written. -/
theorem putScheduleUnattested_answers (run : putScheduleUnattested env name definition actor expected db = .ok (answer, db')) :
    (∃ r, db'.scheduling.schedules.get? answer.scheduleId = some r ∧ r.state = answer.state) ∧
      (db' = db ∨ answer.outcome = .created ∨ answer.outcome = .updated) := by
  simp only [putScheduleUnattested, newUuid, seq_eq_ok] at run
  obtain ⟨-, -, -, -, -, -, d, parse, run⟩ := run
  split at run
  · simp only [seq_eq_ok] at run
    obtain ⟨-, -, -, -, -, -, written, write, finish⟩ := run
    cases finish
    obtain ⟨row, shape, rfl⟩ := writeSchedule_frame write
    refine ⟨⟨row, Table.get?_put_self _ _ _, ?_⟩, .inr (.inl rfl)⟩
    rw [shape]
    rfl
  · rename_i id r found
    have stored := scheduleByName_eq_some found
    obtain ⟨-, -, run⟩ := seq_eq_ok.mp run
    split at run
    · obtain ⟨-, -, run⟩ := seq_eq_ok.mp run
      cases run
      exact ⟨⟨r, stored, rfl⟩, .inl rfl⟩
    · simp only [seq_eq_ok] at run
      obtain ⟨-, -, -, -, run⟩ := run
      split at run
      · cases run
        exact ⟨⟨r, stored, rfl⟩, .inl rfl⟩
      · simp only [seq_eq_ok] at run
        obtain ⟨-, -, written, write, finish⟩ := run
        cases finish
        obtain ⟨row, shape, rfl⟩ := writeSchedule_frame write
        refine ⟨⟨row, Table.get?_put_self _ _ _, ?_⟩, .inr (.inr rfl)⟩
        rw [shape]
        rfl

theorem putManagedSchedule_raw {m : Metadata} (run : putManagedSchedule env name definition m actor expected db = .ok (answer, db'))
    (changed : (db.scheduling.schedules.get? answer.scheduleId).map (·.defined) ≠
      (db'.scheduling.schedules.get? answer.scheduleId).map (·.defined)) (active : answer.state = .active) :
    Raw answer.scheduleId db' := by
  simp only [putManagedSchedule, seq_eq_ok] at run
  obtain ⟨-, -, -, -, -, -, cleared, clear, ⟨result, put⟩, unattested, run⟩ := run
  obtain ⟨⟨s, found, state⟩, rest⟩ := putScheduleUnattested_answers unattested
  rw [show scheduleById put result.scheduleId = some s from found] at run
  obtain ⟨marked, mark, run⟩ := seq_eq_ok.mp run
  have alike : marked.defined = s.defined ∧ marked.state = s.state ∧ marked.initialized = s.initialized ∧
      marked.claim = s.claim := by
    unfold applyMetadata at mark
    split at mark <;> cases mark
    exact ⟨rfl, rfl, rfl, rfl⟩
  obtain ⟨defined, stateSame, initialized, claim⟩ := alike
  -- where the document changed nothing, the row that is written has the old definition
  have kept (row : Schedule) (shape : row.defined = marked.defined) (same : put = cleared) :
      (db.scheduling.schedules.get? result.scheduleId).map (·.defined) =
        ((put.putSchedule result.scheduleId row).scheduling.schedules.get? result.scheduleId).map (·.defined) := by
    subst same
    change _ = ((Table.put _ result.scheduleId row).get? result.scheduleId).map _
    rw [← clearAudit_defined clear, Table.get?_put_self, found, Option.map_some, Option.map_some, shape, defined]
  split at run
  · -- the metadata alone have changed
    rename_i unchanged
    obtain ⟨written, write, finish⟩ := seq_eq_ok.mp run
    cases finish
    obtain ⟨row, shape, rfl⟩ := writeSchedule_frame write
    obtain same | made | made := rest
    · exact absurd (kept row (by rw [shape]; rfl) same) changed
    · simp [made] at unchanged
    · simp [made] at unchanged
  · obtain ⟨written, write, finish⟩ := seq_eq_ok.mp run
    cases finish
    obtain ⟨row, shape, rfl⟩ := writeSchedule_frame write
    obtain same | made := rest
    · exact absurd (kept row (by rw [shape]; rfl) same) changed
    · have going : result.state = .active := state.symm.trans (stateSame.symm.trans active)
      obtain ⟨raw, free⟩ := putScheduleUnattested_raw unattested made going s found
      intro r' there
      cases (Table.get?_put_self _ _ _).symm.trans there
      rw [shape]
      exact ⟨initialized.trans raw, claim.trans free⟩

theorem Restarts.raw (restarts : Restarts env id db db') : Raw id db' := by
  cases restarts with
  | resume run changed own => exact own ▸ setScheduleState_raw run changed rfl
  | define run changed active own => exact own ▸ putSchedule_raw run changed active
  | manage run changed active own =>
    subst own
    exact putManagedSchedule_raw run changed active

/-- No occurrence due at or before a resume, or a new or changed definition, of its schedule is fired after it. -/
theorem restarted_schedules_fire_later {db' : Db} (restarts : Restarts env id s.db t.db) (clock : t.clock = env.now)
    (run : System.Run site clockForward t u) (fires : FiresAnew env' a u.db db') (own : a.scheduleId = id) :
    ∀ d ∈ a.occurrences, env.now < d := by
  have behind : Behind id {d | d ≤ t.clock} t.clock t.db := by
    refine ⟨fun d passed => passed, ?_⟩
    intro r there
    obtain ⟨raw, free⟩ := restarts.raw r there
    constructor
    · intro compiled
      cases raw.symm.trans compiled
    · intro c held
      cases free.symm.trans held
  intro d selected
  have later := (own ▸ behind.run run : Behind a.scheduleId _ _ _).fires fires
  exact later env.now (clock ▸ le_refl env.now) d selected

/-- The schedule is paused in the first minute. -/
def pausedMinute : List (Time × Command) :=
  firstMinute ++ [(60000000, .setScheduleState "s" false (some 1) (some "a") (some "r"))]

/-- Its resume compiles it again: the next minute is the first to fire. -/
def resumedMinute : List (Time × Command) :=
  [(120000000, .claimSchedules (some "w") (some 2) (some 300)), (120000000, .fireSchedule ⟨2, 11, 3, [], 180000000⟩),
    (180000000, .claimSchedules (some "w") (some 2) (some 300))]

/-- The fire call after the resume. -/
def thirdFire : FireArgs := ⟨2, 13, 3, [180000000], 240000000⟩

theorem restarted_schedules_fire_later_resumed : ∃ (s t u : System) (db' : Db),
    Restarts (.alone .digits 120000000 7) 2 s.db t.db ∧ System.Run .digits clockForward t u ∧
    FiresAnew (.alone .digits 180000000 20) thirdFire u.db db' ∧ ∀ d ∈ thirdFire.occurrences, (120000000 : Time) < d := by
  have played : System.plays .digits pausedMinute (.installed .digits 0) (fun s =>
      (setScheduleState (.alone .digits 120000000 7) "s" true (some 2) (some "a") (some "r") s.db).toOption.any fun e =>
        e.1.outcome = .updated && e.1.scheduleId = 2 &&
        System.plays .digits resumedMinute (s.next 120000000 7 e.2) fun u =>
          firesAnew (.alone .digits 180000000 20) thirdFire u.db fun _ => true) = true := by
    decide +kernel
  obtain ⟨s, -, there⟩ := System.plays_forward played (by decide)
  obtain ⟨⟨answer, db⟩, call, there⟩ := (Option.any_eq_true _ _).mp there
  obtain ⟨resumed, there⟩ := (Bool.and_eq_true _ _).mp there
  simp only [Bool.and_eq_true, decide_eq_true_eq] at resumed
  obtain ⟨u, run, there⟩ := System.plays_forward there (by simp [System.next, resumedMinute])
  obtain ⟨db', fires, -, -⟩ := firesAnew_iff there
  have restarts := Restarts.resume (toOption_eq_some.mp call) resumed.1 resumed.2
  exact ⟨s, s.next 120000000 7 db, u, db', restarts, run, fires,
    restarted_schedules_fire_later restarts rfl run fires rfl⟩

end Restart

section Tokens

/-- Every claim that a schedule holds has a token that is drawn by then. -/
def TokensDrawn (db : Db) : Prop :=
  ∀ id r c, db.scheduling.schedules.get? id = some r → r.claim = some c → c.token < db.nextUuid

/-- The token is drawn, and the schedule holds no claim with it. -/
def Spent (id token : Uuid) (db : Db) : Prop :=
  token < db.nextUuid ∧ ∀ r c, db.scheduling.schedules.get? id = some r → r.claim = some c → c.token ≠ token

/-- What a move of a cursor does to the claim: it stays, it goes, or there is a new one. -/
theorem Cursor.Step.claim_cases {change : CursorChange} {k k' : Cursor} (step : Cursor.Step now change k k') :
    k'.claim = k.claim ∨ k'.claim = none ∨ change = .claim := by
  cases step with
  | mark => exact .inl rfl
  | claim => exact .inr (.inr rfl)
  | restart | hold | fail | fire => exact .inr (.inl rfl)

/-- The claims after a move are claims from before it, or carry the id that the move draws. -/
theorem CalendarMove.claims {l : Option (Uuid × CursorChange)} {c c' : Calendar} (move : CalendarMove now l c c')
    {r' : Schedule} {held : ScheduleClaim} (there : c'.schedules.get? id = some r') (own : r'.claim = some held) :
    (∃ r, c.schedules.get? id = some r ∧ r.claim = some held) ∨ held.token = c.nextUuid ∧ c.nextUuid < c'.nextUuid := by
  have row := move.row id
  rw [there] at row
  generalize earlier : c.schedules.get? id = old at row
  cases row with
  | same => exact .inl ⟨r', rfl, own⟩
  | @change _ r _ _ step token =>
    obtain same | gone | claims := step.claim_cases
    · exact .inl ⟨r, rfl, same.symm.trans own⟩
    · cases gone.symm.trans own
    · obtain ⟨drawn, fresh⟩ := token claims
      exact .inr ⟨fresh held own, drawn⟩
  | @retag r _ same => exact .inl ⟨r, rfl, (congrArg Cursor.claim same).symm.trans own⟩
  | create _ born => cases born.2.2.1.symm.trans own

theorem TokensDrawn.exec (drawn : TokensDrawn db) (run : command.exec env db = .ok db') : TokensDrawn db' := by
  obtain ⟨⟨F, -, steps⟩, -⟩ := Command.exec_effect run
  obtain same | ⟨S, moves⟩ := Command.exec_calendar run
  · intro id r c there own
    exact (drawn id r c (same ▸ there) own).trans_le steps.nextUuid_le
  · refine moves.invariant (I := fun c => ∀ id r held, c.schedules.get? id = some r → r.claim = some held →
      held.token < c.nextUuid) ?_ drawn
    intro l c c' _ move kept id r' held there own
    obtain ⟨r, earlier, same⟩ | ⟨fresh, later⟩ := move.claims there own
    · exact (kept id r held earlier same).trans_le move.nextUuid_le
    · rw [fresh]
      exact later

theorem System.Reachable.tokensDrawn {allowed : System → Env → Command → Prop} (reachable : System.Reachable site allowed s) :
    TokensDrawn s.db := by
  refine reachable.induction (I := fun s => TokensDrawn s.db) ?_ ?_
  · intro now id r c there own
    simp only [System.installed, Db.installed, Table.get?_put] at there
    split_ifs at there
    · cases there
      cases own
    · cases there
  · rintro s t env command drawn - ⟨-, -, run⟩
    exact drawn.exec run

theorem Spent.exec (spent : Spent id token db) (run : command.exec env db = .ok db') : Spent id token db' := by
  obtain ⟨⟨F, -, steps⟩, -⟩ := Command.exec_effect run
  obtain same | ⟨S, moves⟩ := Command.exec_calendar run
  · exact ⟨spent.1.trans_le steps.nextUuid_le, same ▸ spent.2⟩
  · refine moves.invariant (I := fun c => token < c.nextUuid ∧ ∀ r held, c.schedules.get? id = some r →
      r.claim = some held → held.token ≠ token) ?_ spent
    rintro l c c' - move ⟨old, free⟩
    refine ⟨old.trans_le move.nextUuid_le, ?_⟩
    intro r' held there own
    obtain ⟨r, earlier, same⟩ | ⟨fresh, -⟩ := move.claims there own
    · exact free r held earlier same
    · rw [fresh]
      exact (Nat.ne_of_lt old).symm

theorem Spent.run {allowed : System → Env → Command → Prop} (spent : Spent id token s.db) (run : System.Run site allowed s t) :
    Spent id token t.db := by
  refine run.induction (I := fun t => Spent id token t.db) spent ?_
  rintro t u env command spent - ⟨-, -, run⟩
  exact spent.exec run

/-- A fire or error call under a token of a schedule. -/
inductive Acts (id token : Uuid) : Command → Prop
  | fire {a : FireArgs} (schedule : a.scheduleId = id) (own : a.token = token) : Acts id token (.fireSchedule a)
  | error {e : ErrorArgs} (schedule : e.scheduleId = id) (own : e.token = token) : Acts id token (.scheduleError e)

/-- Nothing changed, but for ids that were drawn. -/
def Idle (db db' : Db) : Prop := ∃ n, db' = { db with nextUuid := n }

/-- Giving up a claim spends its token. -/
theorem Spent.given {r stored : Schedule} {claim : ScheduleClaim} {version : ℤ} (later : db.nextUuid ≤ db'.nextUuid)
    (found : db.scheduling.schedules.get? id = some r)
    (current : currentClaim env r.toScheduleRow token version = some claim) (gone : stored.claim = none)
    (row : db'.scheduling.schedules = db.scheduling.schedules.put id stored) :
    ¬Spent id token db ∧ (TokensDrawn db → Spent id token db') := by
  obtain ⟨held, -, -, own, -⟩ := currentClaim_eq_some.mp current
  refine ⟨fun spent => spent.2 r claim found held own, fun drawn => ⟨?_, ?_⟩⟩
  · exact own ▸ (drawn id r claim found held).trans_le later
  · intro r' c there
    rw [row] at there
    cases (Table.get?_put_self _ _ _).symm.trans there
    intro still
    cases gone.symm.trans still

/-- A call that does something under a token has it on the schedule, and leaves it spent. -/
theorem Acts.spends (acts : Acts id token command) (run : command.exec env db = .ok db') (busy : ¬Idle db db') :
    ¬Spent id token db ∧ (TokensDrawn db → Spent id token db') := by
  obtain ⟨⟨F, -, steps⟩, -⟩ := Command.exec_effect run
  have later := steps.nextUuid_le
  cases acts with
  | @fire a schedule own =>
    subst schedule own
    obtain ⟨answer, run⟩ := map_snd_eq_ok.mp run
    obtain ⟨idle, -⟩ | ⟨found, current, -, performs, -, -, row, after⟩ := fireSchedule_runs run
    · exact absurd ⟨_, idle⟩ busy
    · refine Spent.given later found current (congrArg ScheduleRow.claim row) ?_
      rw [after]
      exact congrArg (Table.put · _ _) performs.schedules
  | @error e schedule own =>
    subst schedule own
    obtain ⟨answer, run⟩ := map_snd_eq_ok.mp run
    obtain rfl | ⟨r, stored, claim, found, current, gone, row⟩ := scheduleError_runs run
    · exact absurd ⟨_, rfl⟩ busy
    · exact Spent.given later found current gone row

/-- The token of a claim acts once. After a fire or error call that changed something under it, every later call under
it leaves the database as it was, whatever the calls in between. -/
theorem tokens_act_once {allowed : System → Env → Command → Prop} {command' : Command}
    (reachable : System.Reachable site allowed s) (first : System.Step site env command s t)
    (acts : Acts id token command) (busy : ¬Idle s.db t.db) (run : System.Run site allowed t u)
    (second : command'.exec env' u.db = .ok db') (again : Acts id token command') : Idle u.db db' := by
  have drawn := reachable.tokensDrawn
  obtain ⟨-, -, first⟩ := first
  have spent : Spent id token u.db := Spent.run ((acts.spends first busy).2 drawn) run
  by_contra busy'
  exact (again.spends second busy').1 spent

/-- The fire call of the first minute, made twice. -/
theorem tokens_act_once_minute : ∃ (s : System) (db db' : Db), ¬Idle s.db db ∧
    Command.exec (.alone .digits 60000000 9) (.fireSchedule firstFire) s.db = .ok db ∧
    Command.exec (.alone .digits 60000000 20) (.fireSchedule firstFire) db = .ok db' ∧ Idle db db' := by
  have played : System.plays .digits firstMinute (.installed .digits 0) (fun s =>
      decide (s.xid < 9) && (s.db.scheduling.schedules.get? 2).any (·.claim ≠ none) &&
      firesAnew (.alone .digits 60000000 9) firstFire s.db fun db =>
        (db.scheduling.schedules.get? 2).all (·.claim = none) &&
        (fireSchedule (.alone .digits 60000000 20) firstFire db).toOption.isSome) = true := by
    decide +kernel
  obtain ⟨s, run, there⟩ := System.plays_run anyCall played fun _ _ _ => trivial
  obtain ⟨start, there⟩ := (Bool.and_eq_true _ _).mp there
  simp only [Bool.and_eq_true, decide_eq_true_eq] at start
  obtain ⟨db, -, first, there⟩ := firesAnew_iff there
  obtain ⟨given, again⟩ := (Bool.and_eq_true _ _).mp there
  obtain ⟨⟨answer, db'⟩, answered⟩ := Option.isSome_iff_exists.mp again
  have second : Command.exec (.alone .digits 60000000 20) (.fireSchedule firstFire) db = .ok db' :=
    map_snd_eq_ok.mpr ⟨answer, toOption_eq_some.mp answered⟩
  have busy : ¬Idle s.db db := by
    rintro ⟨n, rfl⟩
    obtain ⟨r, stored, held⟩ := (Option.any_eq_true _ _).mp start.2
    simp only [stored, Option.all_some, decide_eq_true_eq] at given
    exact of_decide_eq_true held given
  exact ⟨s, db, db', busy, first, second,
    tokens_act_once ⟨0, run⟩ (.commit rfl start.1 first) (.fire rfl rfl) busy .start second (.fire rfl rfl)⟩

end Tokens

end Taskq
