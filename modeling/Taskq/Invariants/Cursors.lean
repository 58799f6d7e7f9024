import Taskq.Invariants.Timetable

/-! The cursors and the recorded occurrences over a run: an occurrence that has a row is over, a compiled cursor is
past it, and its row stays as long as it has a job. -/
namespace Taskq
open Relational

variable {env : Env} {db db' mid : Db} {command : Command} {id : Uuid} {now : Time} {gone : Set Time}
  {site : Site} {s t : System}

/-- The occurrences of a schedule that have rows. -/
def Db.dues (db : Db) (id : Uuid) : Set Time := {d | ∃ o, db.scheduling.occurrences.get? (id, d) = some o}

section Cursor

/-- A compiled cursor is past the occurrences, and a claim was made when they were over. -/
structure Cursor.Past (k : Cursor) (now : Time) (gone : Set Time) : Prop where
  compiled : k.initialized = true → ∀ d ∈ gone, d < k.nextFireAt
  claimed : ∀ c, k.claim = some c → c.asOf ≤ now ∧ ∀ d ∈ gone, d ≤ c.asOf

variable {k k' : Cursor} {change : CursorChange}

theorem Cursor.Past.mono {later : Time} {gone' : Set Time} (past : k.Past now gone) (wait : now ≤ later)
    (fewer : gone' ⊆ gone) : k.Past later gone' :=
  ⟨fun ready d there => past.compiled ready d (fewer there), fun c held =>
    ⟨(past.claimed c held).1.trans wait, fun d there => (past.claimed c held).2 d (fewer there)⟩⟩

/-- A cursor that was just put is not compiled and not claimed. -/
theorem Cursor.Born.past (born : k.Born now) : k.Past now gone := by
  obtain ⟨raw, -, free, -⟩ := born
  exact ⟨fun ready => absurd (raw.symm.trans ready) (by simp), fun c held => by simp [free] at held⟩

/-- Whatever else than a fire moves a cursor keeps it past the occurrences. -/
theorem Cursor.Past.step (past : k.Past now gone) (ended : ∀ d ∈ gone, d ≤ now) (step : Cursor.Step now change k k')
    (still : ∀ ds, change ≠ .fire ds) : k'.Past now gone := by
  cases step with
  | mark => exact past
  | claim _ c active due free seen =>
    refine ⟨past.compiled, fun c' held => ?_⟩
    cases held
    exact ⟨seen.le, fun d there => (ended d there).trans seen.ge⟩
  | restart => exact ⟨nofun, nofun⟩
  | hold | fail => exact ⟨past.compiled, nofun⟩
  | fire _ _ dues => exact absurd rfl (still dues)

/-- A fire moves the cursor past the occurrences that it selects. -/
theorem Cursor.Past.fire {ds : List Time} (past : k.Past now gone) (step : Cursor.Step now (.fire ds) k k') :
    k'.Past now (gone ∪ {d | d ∈ ds}) ∧ ∀ d ∈ ds, d ≤ now := by
  cases step with
  | fire _ c _ next last held token forward compiled first due =>
    obtain ⟨seen, behind⟩ := past.claimed c held
    refine ⟨⟨fun _ d there => ?_, nofun⟩, fun d selected => (due d selected).2.1.trans seen⟩
    obtain old | selected := there
    · cases ready : k.initialized with
      | true => exact (past.compiled ready d old).trans forward
      | false => exact (behind d old).trans_lt (first ready)
    · exact (due d selected).2.2

end Cursor

section Calm

/-- A row that the janitor leaves: it has a job, or it was just written. -/
def Occurrence.Lasting (now : Time) (o : Occurrence) : Prop := o.jobId ≠ none ∨ now ≤ o.createdAt

/-- What a call that fires nothing does to schedules and occurrences. -/
structure Unfired (env : Env) (db db' : Db) : Prop where
  schedules : db'.scheduling.schedules = db.scheduling.schedules ∨
    CalendarSteps env.now unfired db.calendar db'.calendar
  fewer : ∀ key o, db'.scheduling.occurrences.get? key = some o → db.scheduling.occurrences.get? key = some o
  lasting : ∀ key o, db.scheduling.occurrences.get? key = some o → o.Lasting env.now →
    db'.scheduling.occurrences.get? key = some o

theorem Unfired.of_scheduling (same : db'.scheduling = db.scheduling) : Unfired env db db' := by
  refine ⟨.inl (by rw [same]), ?_, ?_⟩ <;> rw [same]
  · exact fun _ _ h => h
  · exact fun _ _ h _ => h

theorem Unfired.of_calendar (calendar : CalendarSteps env.now unfired db.calendar db'.calendar)
    (same : db'.scheduling.occurrences = db.scheduling.occurrences) : Unfired env db db' := by
  refine ⟨.inr calendar, ?_, ?_⟩ <;> rw [same]
  · exact fun _ _ h => h
  · exact fun _ _ h _ => h

/-- The janitor prunes only old rows without a job. -/
theorem janitor_unfired {report : JanitorReport} (run : janitor env db = .ok (report, db')) : Unfired env db db' := by
  obtain ⟨mid, path, -, rfl⟩ := janitor_cases run
  have scheduling : mid.scheduling = db.scheduling := congrArg Prod.fst path.settings
  refine ⟨.inl (show mid.scheduling.schedules = db.scheduling.schedules by rw [scheduling]), fun key o there => ?_, fun key o there lasting => ?_⟩
  · simp only [pruneDecisions, pruneOccurrences, Table.get?_keep, scheduling] at there
    exact (Option.filter_eq_some_iff.mp there).1
  · simp only [pruneDecisions, pruneOccurrences, Table.get?_keep, scheduling]
    refine Option.filter_eq_some_iff.mpr ⟨there, ?_⟩
    have age : env.now - days 90 < env.now := sub_lt_self _ (by decide)
    simp only [decide_eq_true_eq, not_and]
    exact fun old idle _ => lasting.elim (fun job => job idle) fun new => (old.trans age).not_ge new

theorem Command.exec_unfired (run : command.exec env db = .ok db') (other : ∀ a, command ≠ .fireSchedule a) :
    Unfired env db db' := by
  have kept := (Command.exec_effect run).2.2
  cases command with
  | bindQueueAdmissionOwner =>
    have assigns := bindQueueAdmissionOwner_assigns run
    exact .of_calendar assigns.calendar assigns.keeps.2
  | adoptQueueAdmissionOwner =>
    have assigns := adoptQueueAdmissionOwner_assigns run
    exact .of_calendar assigns.calendar assigns.keeps.2
  | rotateQueueAdmissionOwner =>
    have assigns := rotateQueueAdmissionOwner_assigns run
    exact .of_calendar assigns.calendar assigns.keeps.2
  | putSchedule =>
    obtain ⟨_, run⟩ := map_snd_eq_ok.mp run
    exact .of_calendar (putSchedule_path run).calendar kept.2.2
  | putManagedSchedule =>
    obtain ⟨_, run⟩ := map_snd_eq_ok.mp run
    exact .of_calendar (putManagedSchedule_path run).calendar kept.2.2
  | setScheduleState =>
    obtain ⟨_, run⟩ := map_snd_eq_ok.mp run
    exact .of_calendar (setScheduleState_path run).calendar kept.2.2
  | retireSchedule =>
    obtain ⟨_, run⟩ := map_snd_eq_ok.mp run
    exact .of_calendar (retireSchedule_path run).calendar kept.2.2
  | setScheduleSmear => exact .of_calendar (setScheduleSmear_path run).calendar kept.2.2
  | claimSchedules =>
    obtain ⟨_, run⟩ := map_snd_eq_ok.mp run
    exact .of_calendar (claimSchedules_path run).calendar kept.2.2
  | scheduleError =>
    obtain ⟨_, run⟩ := map_snd_eq_ok.mp run
    exact .of_calendar (scheduleError_path run).calendar kept.2.2
  | fireSchedule a => exact absurd rfl (other a)
  | janitor =>
    obtain ⟨report, run⟩ := map_snd_eq_ok.mp run
    exact janitor_unfired run
  | _ => exact .of_scheduling kept.1

end Calm

section Fire

variable {r : ScheduleRow} {claim : ScheduleClaim} {decision occurrence j : Uuid} {due : Time} {late : ℤ}
  {counts counts' : FireCounts} {key : Uuid × Time} {o : Occurrence}

theorem performFired_lasting {job : Option Uuid} {outcome : OccurrenceOutcome}
    (run : performFired env id r claim occurrence due late outcome db = .ok (job, db'))
    (there : db.scheduling.occurrences.get? key = some o) (lasting : o.Lasting env.now) :
    db'.scheduling.occurrences.get? key = some o := by
  unfold performFired performOccurrence at run
  split at run
  · split at run
    · simp only [seq_eq_ok] at run
      obtain ⟨-, -, ⟨report, last⟩, clean, finish⟩ := run
      cases finish
      exact (janitor_unfired clean).lasting key o there lasting
    · simp only [seq_eq_ok] at run
      obtain ⟨args, -, ⟨⟨created, fresh⟩, last⟩, enqueued, finish⟩ := run
      cases finish
      have scheduling : last.scheduling = db.scheduling := congrArg Prod.fst (enqueue_path enqueued).settings
      rw [scheduling, there]
  · cases run
    exact there

theorem fireOccurrence_lasting (run : fireOccurrence env id r claim decision due counts db = .ok (counts', db'))
    (there : db.scheduling.occurrences.get? key = some o) (lasting : o.Lasting env.now) :
    db'.scheduling.occurrences.get? key = some o := by
  unfold fireOccurrence at run
  split at run
  · cases run
    exact there
  · rename_i free
    have apart : key ≠ (id, due) := fun same => free (by rw [← same, there]; rfl)
    simp only [newUuid, seq_eq_ok] at run
    obtain ⟨late, -, ⟨job, last⟩, perform, finish⟩ := run
    cases finish
    refine (Table.get?_put_of_ne _ _ apart).trans (performFired_lasting perform ?_ lasting)
    exact (Table.get?_put_of_ne _ _ apart).trans there

/-- A row that lasts stays while occurrences are fired. -/
theorem fireOccurrences_lasting {ds : List Time}
    (run : fireOccurrences env id r claim decision ds counts db = .ok (counts', db'))
    (there : db.scheduling.occurrences.get? key = some o) (lasting : o.Lasting env.now) :
    db'.scheduling.occurrences.get? key = some o := by
  induction ds generalizing db counts with
  | nil =>
    cases run
    exact there
  | cons due ds ih =>
    simp only [fireOccurrences, seq_eq_ok] at run
    obtain ⟨⟨counted, fired⟩, first, rest⟩ := run
    exact ih rest (fireOccurrence_lasting first there lasting)

/-- A fire call that was not answered from the record and not refused, with the occurrences that it performed. -/
inductive Carried (env : Env) (a : FireArgs) (s : Schedule) (claim : ScheduleClaim) (counts : FireCounts)
    (mid db db' : Db) : Prop
  | intro {stored : Schedule} {outcome : ActionOutcome} {last : LastAction}
      (found : db.scheduling.schedules.get? a.scheduleId = some s)
      (unseen : replayedAction a.scheduleId s.toScheduleRow a.token (a.hash env) = none)
      (current : currentClaim env s.toScheduleRow a.token a.definitionVersion = some claim)
      (check : checkFire s.toScheduleRow claim a = .ok outcome)
      (fire : fireOccurrences env a.scheduleId s.toScheduleRow claim db.nextUuid a.occurrences ⟨0, 0, 0, 0⟩
        { db with nextUuid := db.nextUuid + 1 } = .ok (counts, mid))
      (token : last.token = a.token) (row : stored.toScheduleRow = advanced env s.toScheduleRow a last)
      (schedules : db'.scheduling.schedules = mid.scheduling.schedules.put a.scheduleId stored)
      (occurrences : db'.scheduling.occurrences = mid.scheduling.occurrences) (jobs : db'.jobs = mid.jobs)

theorem fireSchedule_carried {a : FireArgs} {answer : ActionResult} (run : fireSchedule env a db = .ok (answer, db')) :
    ((answer.replayed = true ∨ answer.outcome = .stale) ∧ db' = { db with nextUuid := db.nextUuid + 1 }) ∨
      ∃ s claim counts mid, Carried env a s claim counts mid db db' := by
  simp only [fireSchedule, newUuid, seq_eq_ok] at run
  obtain ⟨-, -, -, -, run⟩ := run
  split at run
  · cases run
  · rename_i s found
    split at run
    · rename_i replayed
      cases run
      refine .inl ⟨?_, rfl⟩
      unfold replayedAction at replayed
      split at replayed
      · cases replayed
      · split_ifs at replayed <;> cases replayed
        · exact .inl rfl
        · exact .inr rfl
    · rename_i unseen
      split at run
      · cases run
        exact .inl ⟨.inr rfl, rfl⟩
      · rename_i claim current
        simp only [fireUnderClaim, seq_eq_ok] at run
        obtain ⟨outcome, check, ⟨counts, mid⟩, fire, written, write, finish⟩ := run
        cases finish
        obtain ⟨stored, row, rfl⟩ := writeSchedule_frame write
        exact .inr ⟨s, claim, counts, mid, .intro found unseen current check fire rfl row rfl rfl rfl⟩

end Fire

section Runs

/-- The recorded occurrences are over, and every cursor is past those of its schedule. -/
structure Elapsed (now : Time) (db : Db) : Prop where
  ended : ∀ id, ∀ d ∈ db.dues id, d ≤ now
  past : ∀ id s, db.scheduling.schedules.get? id = some s → s.cursor.Past now (db.dues id)

variable {before : Time}

theorem Unfired.dues_subset (calm : Unfired env db db') (id : Uuid) : db'.dues id ⊆ db.dues id :=
  fun d ⟨o, there⟩ => ⟨o, calm.fewer (id, d) o there⟩

theorem Unfired.elapsed (calm : Unfired env db db') (elapsed : Elapsed before db) (wait : before ≤ env.now) :
    Elapsed env.now db' := by
  have ended (id : Uuid) (d : Time) (there : d ∈ db.dues id) : d ≤ env.now := (elapsed.ended id d there).trans wait
  refine ⟨fun id d there => ended id d (calm.dues_subset id there), ?_⟩
  have start (id : Uuid) (s : Schedule) (stored : db.scheduling.schedules.get? id = some s) :
      s.cursor.Past env.now (db.dues id) := (elapsed.past id s stored).mono wait subset_rfl
  have finish : ∀ id s, db'.scheduling.schedules.get? id = some s → s.cursor.Past env.now (db.dues id) := by
    obtain same | steps := calm.schedules
    · rw [same]
      exact start
    · refine steps.invariant (I := fun c => ∀ id s, c.schedules.get? id = some s →
        s.cursor.Past env.now (db.dues id)) (fun {l c c'} labelled move kept id s' there => ?_) start
      have row := move.row id
      rw [there] at row
      generalize earlier : c.schedules.get? id = old at row
      cases row with
      | same => exact kept id s' earlier
      | change label step =>
        exact (kept id _ earlier).step (ended id) step fun ds same => labelled _ label ds same
      | retag same => exact same ▸ kept id _ earlier
      | create _ born => exact born.past
  exact fun id s there => (finish id s there).mono le_rfl (calm.dues_subset id)

variable {a : FireArgs} {r : Schedule} {claim : ScheduleClaim} {counts : FireCounts}

theorem Carried.dues_subset (carried : Carried env a r claim counts mid db db') {d : Time} (there : d ∈ db'.dues id) :
    d ∈ db.dues id ∨ id = a.scheduleId ∧ d ∈ a.occurrences := by
  obtain ⟨-, -, -, -, fire, -, -, -, occurrences, -⟩ := carried
  obtain ⟨o, there⟩ := there
  rw [occurrences] at there
  exact ((fireOccurrences_performs fire).added (id, d) o there).imp_left fun old => ⟨o, old⟩

theorem Carried.elapsed (carried : Carried env a r claim counts mid db db') (elapsed : Elapsed before db)
    (wait : before ≤ env.now) : Elapsed env.now db' := by
  have fewer {id : Uuid} {d : Time} (there : d ∈ db'.dues id) := carried.dues_subset there
  obtain ⟨found, -, current, check, fire, token, row, schedules, -, -⟩ := carried
  have accepted := checkFire_accepted check
  obtain ⟨held, -, -, own, -⟩ := currentClaim_eq_some.mp current
  rename_i stored _ last
  have step : Cursor.Step env.now (.fire a.occurrences) r.cursor stored.cursor := by
    rw [row]
    exact .fire r.cursor claim a.occurrences a.nextFireAt last held (token.trans own.symm) accepted.forward
      accepted.compiled accepted.first accepted.due
  obtain ⟨past, ended⟩ := ((elapsed.past _ _ found).mono wait subset_rfl).fire step
  refine ⟨fun id d there => ?_, fun id s there => ?_⟩
  · obtain old | ⟨-, selected⟩ := fewer there
    · exact (elapsed.ended id d old).trans wait
    · exact ended d selected
  · rw [schedules, (fireOccurrences_performs fire).schedules, Table.get?_put] at there
    split_ifs at there with same
    · cases there
      exact past.mono le_rfl fun d present => (same ▸ fewer present).imp_right And.right
    · refine (elapsed.past id s there).mono wait fun d present => ?_
      exact (fewer present).resolve_right fun new => same new.1

/-- A call that commits keeps the recorded occurrences in the past. -/
theorem Elapsed.exec (elapsed : Elapsed before db) (wait : before ≤ env.now) (run : command.exec env db = .ok db') :
    Elapsed env.now db' := by
  by_cases fires : ∃ a, command = .fireSchedule a
  · obtain ⟨a, rfl⟩ := fires
    obtain ⟨answer, run⟩ := map_snd_eq_ok.mp run
    obtain ⟨-, rfl⟩ | ⟨r, claim, counts, mid, carried⟩ := fireSchedule_carried run
    · have minted : Unfired env db { db with nextUuid := db.nextUuid + 1 } := .of_scheduling rfl
      exact minted.elapsed elapsed wait
    · exact carried.elapsed elapsed wait
  · exact (Command.exec_unfired run (not_exists.mp fires)).elapsed elapsed wait

theorem System.Reachable.elapsed (reachable : System.Reachable site clockForward s) : Elapsed s.clock s.db := by
  refine reachable.induction (I := fun s => Elapsed s.clock s.db) (fun now => ?_)
    fun elapsed forward (.commit _ _ run) => elapsed.exec forward run
  have none (id : Uuid) : (System.installed site now).db.dues id = ∅ :=
    Set.eq_empty_of_forall_notMem fun d there => by
      obtain ⟨o, there⟩ := there
      cases there
  refine ⟨fun id d there => by simp [none] at there, fun id s there => ⟨fun _ d there => by simp [none] at there, ?_⟩⟩
  simp only [System.installed, Db.installed, Table.get?_put] at there
  split_ifs at there
  · cases there
    intro e same
    cases same
  · cases there

/-- A call stores a schedule under an id that is drawn by then. -/
theorem Command.exec_scheduled (run : command.exec env db = .ok db')
    (drawn : ∀ r, db.scheduling.schedules.get? id = some r → id < db.nextUuid) :
    ∀ r, db'.scheduling.schedules.get? id = some r → id < db'.nextUuid := by
  obtain ⟨⟨F, -, steps⟩, -⟩ := Command.exec_effect run
  have later : db.nextUuid ≤ db'.nextUuid := steps.nextUuid_le
  have moved {S : Set (Uuid × CursorChange)} (moves : CalendarSteps env.now S db.calendar db'.calendar) :
      ∀ r, db'.scheduling.schedules.get? id = some r → id < db'.nextUuid := by
    refine moves.invariant (I := fun c => ∀ r, c.schedules.get? id = some r → id < c.nextUuid)
      (fun {l c c'} _ move kept r there => ?_) drawn
    have row := move.row id
    rw [there] at row
    generalize earlier : c.schedules.get? id = old at row
    cases row with
    | same => exact (kept r earlier).trans_le move.nextUuid_le
    | change => exact (kept _ earlier).trans_le move.nextUuid_le
    | retag => exact (kept _ earlier).trans_le move.nextUuid_le
    | create minted => exact minted
  by_cases fires : ∃ a, command = .fireSchedule a
  · obtain ⟨a, rfl⟩ := fires
    obtain ⟨answer, run⟩ := map_snd_eq_ok.mp run
    exact moved (fireSchedule_calendar run)
  · obtain same | moves := (Command.exec_unfired run (not_exists.mp fires)).schedules
    · exact fun r there => (drawn r (same ▸ there)).trans_le later
    · exact moved moves

theorem System.Reachable.scheduled {allowed : System → Env → Command → Prop} (reachable : System.Reachable site allowed s)
    {r : Schedule} (there : s.db.scheduling.schedules.get? id = some r) : id < s.db.nextUuid := by
  refine reachable.induction (I := fun s => ∀ r, s.db.scheduling.schedules.get? id = some r → id < s.db.nextUuid)
    (fun now r there => ?_) (fun drawn _ (.commit _ _ run) => Command.exec_scheduled run drawn) r there
  simp only [System.installed, Db.installed, Table.get?_put] at there
  split_ifs at there with own
  · exact own ▸ Nat.lt_succ_self _
  · cases there

/-- The row of an occurrence with a job stays over any run. -/
theorem System.Run.linked {allowed : System → Env → Command → Prop} (run : System.Run site allowed s t)
    {key : Uuid × Time} {o : Occurrence} (there : s.db.scheduling.occurrences.get? key = some o)
    (job : o.jobId ≠ none) : t.db.scheduling.occurrences.get? key = some o := by
  refine run.induction (I := fun t => t.db.scheduling.occurrences.get? key = some o) there ?_
  rintro t u env command there - ⟨-, -, run⟩
  by_cases fires : ∃ a, command = .fireSchedule a
  · obtain ⟨a, rfl⟩ := fires
    obtain ⟨answer, run⟩ := map_snd_eq_ok.mp run
    obtain ⟨-, rfl⟩ | ⟨r, claim, counts, mid, -, -, -, -, fire, -, -, -, occurrences, -⟩ := fireSchedule_carried run
    · exact there
    · exact (congrArg (·.get? key) occurrences).trans (fireOccurrences_lasting fire there (.inl job))
  · exact (Command.exec_unfired run (not_exists.mp fires)).lasting key o there (.inl job)

end Runs

end Taskq
