import Taskq.Lifecycle.ConfigPaths

/-! The paths of the schedule verbs and of the claims and errors of a scheduler: jobs stay as they
are, and no occurrence fires. -/
namespace Taskq
open Relational

variable {env : Env} {db db' db₁ db₂ : Db} {id : Uuid} {S : Set (Uuid × CursorChange)}

/-- Every change but a fire. -/
def unfired : Set (Uuid × CursorChange) := {l | ∀ dues, l.2 ≠ .fire dues}

/-- A call that moves cursors: the job tables stay but for fresh ids, and so do the occurrences. -/
structure Reschedules (site : Site) (now : Time) (S : Set (Uuid × CursorChange)) (db db' : Db) : Prop where
  frame : ∃ n scheduling, db' = { db with nextUuid := db.nextUuid + n, scheduling := scheduling }
  calendar : CalendarSteps now S db.calendar db'.calendar
  occurrences : db'.scheduling.occurrences = db.scheduling.occurrences
  writes : ScheduleWrites site db.scheduling.schedules db'.scheduling.schedules

namespace Reschedules

variable {site : Site} {now : Time}

theorem refl (db : Db) : Reschedules site now S db db := ⟨⟨0, _, rfl⟩, .refl _, rfl, .refl⟩

theorem trans (first : Reschedules site now S db db₁) (second : Reschedules site now S db₁ db₂) :
    Reschedules site now S db db₂ := by
  obtain ⟨n, _, eq₁⟩ := first.frame
  obtain ⟨m, tables, eq₂⟩ := second.frame
  refine ⟨⟨n + m, tables, ?_⟩, first.calendar.trans second.calendar,
    second.occurrences.trans first.occurrences, first.writes.trans second.writes⟩
  rw [eq₂, eq₁]
  simp only [Nat.add_assoc]

theorem mint (db : Db) : Reschedules site now S db { db with nextUuid := db.nextUuid + 1 } :=
  ⟨⟨1, _, rfl⟩, .quiet (.mint (Nat.le_succ _)), rfl, .refl⟩

theorem decide (db : Db) (decision : Uuid) (d : Decision) :
    Reschedules site now S db (db.putDecision decision d) :=
  ⟨⟨0, _, rfl⟩, .refl _, rfl, .refl⟩

theorem logs {env : Env} (path : Reschedules site now S db db') : Logs env db db' := by
  obtain ⟨n, _, frame⟩ := path.frame
  exact .aside (by rw [frame]) (by rw [frame]; rfl)

theorem steps (path : Reschedules site now S db db') : Steps {.mint} db.toCore db'.toCore := by
  obtain ⟨n, _, frame⟩ := path.frame
  rw [frame]
  exact Steps.mints (Set.mem_singleton _) db.toCore n

/-- A statement that rewrites the row of a stored schedule. -/
theorem write {r : ScheduleRow} {s : Schedule} {k : CursorChange}
    (run : writeSchedule id r db = .ok db') (stored : db.scheduling.schedules.get? id = some s)
    (step : Cursor.Step now k s.cursor r.cursor) (plain : k ≠ .claim) (labelled : (id, k) ∈ S)
    (name : r.name = s.name) (target : r.target = s.target ∨ Normalized site r.target) :
    Reschedules site now S db db' := by
  obtain ⟨row, rfl, rfl⟩ := writeSchedule_frame run
  exact ⟨⟨0, _, rfl⟩, .change (.write plain stored step) labelled, rfl, .single (.rewrite stored name target)⟩

/-- A statement that leaves the cursor where it is. -/
theorem mark {r : ScheduleRow} {s : Schedule} (run : writeSchedule id r db = .ok db')
    (stored : db.scheduling.schedules.get? id = some s) (kept : r.cursor = s.cursor)
    (name : r.name = s.name) (target : r.target = s.target) : Reschedules site now unfired db db' :=
  write (k := .mark) run stored (kept ▸ .mark _) (by simp) (fun _ => by simp) name (.inl target)

end Reschedules

section Verbs

variable {name : String} {actor reason : Option String} {expected : Option ℤ} {answer : WriteResult}
  {definition : Jsonb} {s : Schedule}

theorem scheduleByName_eq_some (found : scheduleByName db name = some (id, s)) :
    db.scheduling.schedules.get? id = some s :=
  (Table.mem_select.mp (List.mem_of_mem_head? found)).1

theorem scheduleByName_eq_none (unknown : scheduleByName db name = none) {other : Uuid} {r : Schedule}
    (there : db.scheduling.schedules.get? other = some r) : r.name ≠ name := by
  intro same
  have member : (other, r) ∈ db.scheduling.schedules.select fun _ s => s.name = name :=
    Table.mem_select.mpr ⟨there, decide_eq_true same⟩
  rw [List.head?_eq_none_iff.mp unknown] at member
  cases member

theorem setScheduleSmear_path {name : Option String} {smear : Option ℤ}
    (run : setScheduleSmear env name smear db = .ok db') : Reschedules env.toSite env.now unfired db db' := by
  simp only [setScheduleSmear, seq_eq_ok] at run
  obtain ⟨-, -, -, -, run⟩ := run
  split at run
  · cases run
  · rename_i id s found
    obtain ⟨n, -, named⟩ := Option.bind_eq_some_iff.mp found
    split at run
    · cases run
      exact .refl _
    · exact .mark run (scheduleByName_eq_some named) rfl rfl rfl

theorem retireSchedule_path
    (run : retireSchedule env name expected actor db = .ok (answer, db')) :
    Reschedules env.toSite env.now unfired db db' := by
  simp only [retireSchedule, seq_eq_ok] at run
  obtain ⟨-, -, -, -, run⟩ := run
  split at run
  · cases run
  · rename_i id s found
    have stored := scheduleByName_eq_some (Option.filter_eq_some_iff.mp found).1
    obtain ⟨-, -, run⟩ := seq_eq_ok.mp run
    split at run
    · cases run
      exact .refl _
    · obtain ⟨written, write, finish⟩ := seq_eq_ok.mp run
      cases finish
      exact .write write stored (.hold s.cursor .retired none (by simp) (.inl rfl)) (by simp)
        (fun _ => by simp) rfl (.inl rfl)

theorem setScheduleState_path {active : Bool}
    (run : setScheduleState env name active expected actor reason db = .ok (answer, db')) :
    Reschedules env.toSite env.now unfired db db' := by
  simp only [setScheduleState, newUuid, seq_eq_ok] at run
  obtain ⟨-, -, -, -, run⟩ := run
  refine (Reschedules.mint db).trans ?_
  generalize { db with nextUuid := db.nextUuid + 1 } = minted at run ⊢
  split at run
  · cases run
  · rename_i id s found
    have stored := scheduleByName_eq_some (Option.filter_eq_some_iff.mp found).1
    simp only [seq_eq_ok] at run
    obtain ⟨-, -, -, -, run⟩ := run
    by_cases same : s.state = if active then .active else .paused
    · rw [if_pos same] at run
      cases run
      exact .refl _
    · rw [if_neg same] at run
      obtain ⟨written, write, finish⟩ := seq_eq_ok.mp run
      cases finish
      refine Reschedules.trans ?_ ((Reschedules.mint written).trans (.decide _ _ _))
      cases active with
      | true =>
        exact .write write stored (.restart s.cursor _ .active _ (.inr rfl)) (by simp)
          (fun _ => by simp) rfl (.inl rfl)
      | false =>
        exact .write write stored (.hold s.cursor .paused _ (by simp) (.inr rfl)) (by simp)
          (fun _ => by simp) rfl (.inl rfl)

theorem clearAudit_path {name : Option String} (run : clearAudit env name definition db = .ok db') :
    Reschedules env.toSite env.now unfired db db' := by
  obtain ⟨paused, -, body⟩ := seq_eq_ok.mp run
  split at body
  · cases body
    exact .refl _
  · rename_i id s found
    obtain ⟨n, -, named⟩ := Option.bind_eq_some_iff.mp found
    split at body
    · cases body
      exact .refl _
    · exact .mark body (scheduleByName_eq_some named) rfl rfl rfl

/-- A definition that agrees with the stored one does so in every column. -/
theorem Definition.sameAs_iff {d : Definition} {r : ScheduleRow} :
    d.sameAs r = true ↔ r.cursor.definition =
      (d.target.normalize, d.recurrence.normalize, d.policy, d.maxCatchup) ∧ d.checkPolicy = .ok () := by
  simp only [Definition.sameAs, Jsonb.same, ScheduleRow.cursor, Definition.policy, Definition.checkPolicy, ensure_eq_ok]
  cases d.catchupPolicy <;> simp [and_assoc]

/-- What a definition that passes the checks is made of. -/
theorem parseDefinition_parts {d : Definition} (parse : parseDefinition env definition db = .ok d) :
    normalizeTarget env ((definition.field? "target").getD .null) db = .ok d.target ∧ (1 ≤ d.maxCatchup ∧ d.maxCatchup ≤ 100) ∧
    (definition.field? "paused").all (·.kind = .boolean) ∧ d.paused = decide (definition.field? "paused" = some (.bool true)) := by
  simp only [parseDefinition, seq_eq_ok, ensure_eq_ok] at parse
  obtain ⟨_, _, target, normal, recurrence, _, _, _, _, _, limit, _, _, bounds, _, boolean, finish⟩ := parse
  obtain ⟨n, rfl, bounds⟩ := (Option.any_eq_true _ _).mp bounds
  cases finish
  exact ⟨normal, of_decide_eq_true bounds, boolean, rfl⟩

/-- A new row satisfies the constraints. -/
theorem newSchedule_checks {env' : Env} {d : Definition} (parse : parseDefinition env' definition db = .ok d)
    (env : Env) (name actor : String) :
    (scheduleAdmissionOwner (newSchedule env name d actor) db).checksOk = true := by
  have bounds := (parseDefinition_parts parse).2.1
  simp only [ScheduleRow.checksOk, scheduleAdmissionOwner, newSchedule, Definition.state, Option.all_none,
    Option.isSome_none, bounds]
  split_ifs <;> rfl

/-- A live row that gets another definition satisfies the constraints, when no audit is left on it that is to run. -/
theorem redefined_checks {d : Definition} (parse : parseDefinition env definition db = .ok d) {s : Schedule}
    (live : s.state ≠ .retired) (clear : d.paused = false → s.pausedAudit = none) (actor : String) :
    (scheduleAdmissionOwner (redefined env s.toScheduleRow d actor) db).checksOk = true := by
  have bounds := (parseDefinition_parts parse).2.1
  have checks := s.checks
  simp only [ScheduleRow.checksOk, scheduleAdmissionOwner, redefined, ScheduleRow.invalidated, Bool.and_eq_true,
    decide_eq_true_eq, bounds, live] at checks ⊢
  obtain ⟨⟨⟨⟨⟨-, version⟩, retired⟩, errors⟩, errors'⟩, audit⟩ := checks
  refine ⟨⟨⟨⟨⟨by simp, by omega⟩, ?_⟩, errors⟩, errors'⟩, ?_⟩
  · rw [← retired]
    cases paused : d.paused <;> simp [Definition.state, paused]
  · cases paused : d.paused with
    | false => rw [clear paused, Option.all_none]
    | true =>
      refine Option.all_eq_true _ _ |>.mpr fun a there => ?_
      have held := Option.all_eq_true _ _ |>.mp audit a there
      simp only [Definition.state, paused, if_true, decide_true, Bool.true_and]
      simp only [Bool.and_eq_true] at held ⊢
      exact ⟨⟨⟨held.1.1.1.2, held.1.1.2⟩, held.1.2⟩, held.2⟩

/-- A definition that passes the checks has a normalised target. -/
theorem parseDefinition_normalized {d : Definition} (parse : parseDefinition env definition db = .ok d) :
    Normalized env.toSite d.target :=
  ⟨env, _, db, rfl, (parseDefinition_parts parse).1⟩

theorem redefined_step (env : Env) (r : ScheduleRow) (d : Definition) (actor : String) :
    ∃ k, k ≠ .claim ∧ (∀ dues, k ≠ .fire dues) ∧
      Cursor.Step env.now k r.cursor (redefined env r d actor).cursor := by
  by_cases pausing : r.state = .active ∧ d.state = .paused ∧ d.sameAs r = true
  · refine ⟨.hold, by simp, by simp, ?_⟩
    have same := (Definition.sameAs_iff.mp pausing.2.2).1
    have lands : (redefined env r d actor).cursor =
        { r.cursor with
          state := .paused, version := r.version + 1, claim := none, lastAction := none } := by
      rw [ScheduleRow.cursor, Cursor.mk.injEq, same]
      simp [redefined, ScheduleRow.invalidated, ScheduleRow.cursor, pausing]
    rw [lands]
    exact .hold r.cursor .paused none (by simp) (.inl rfl)
  · refine ⟨.restart, by simp, by simp, ?_⟩
    simpa [redefined, ScheduleRow.cursor, pausing, ScheduleRow.invalidated] using
      (.restart r.cursor _ d.state none (.inl rfl) : Cursor.Step env.now .restart r.cursor _)

theorem putScheduleUnattested_path {name : Option String}
    (run : putScheduleUnattested env name definition actor expected db = .ok (answer, db')) :
    Reschedules env.toSite env.now unfired db db' := by
  simp only [putScheduleUnattested, newUuid, seq_eq_ok] at run
  obtain ⟨-, -, -, -, -, -, d, parse, run⟩ := run
  have normal : Normalized env.toSite d.target := parseDefinition_normalized parse
  split at run
  · rename_i unknown
    simp only [seq_eq_ok, ensure_eq_ok] at run
    obtain ⟨⟨⟩, -, ⟨⟩, -, ⟨⟩, free, written, write, finish⟩ := run
    cases finish
    obtain ⟨row, same, rfl⟩ := writeSchedule_frame write
    have free : db.scheduling.schedules.get? db.nextUuid = none := by simpa [scheduleById] using free
    refine (Reschedules.mint db).trans ⟨⟨0, _, rfl⟩, .quiet (.create free (Nat.lt_succ_self _) ?_), rfl,
      .single (.create free (fun other r there named => ?_) ?_)⟩
    · rw [same]
      exact ⟨rfl, rfl, rfl, rfl⟩
    · rw [same] at named
      exact scheduleByName_eq_none unknown there named
    · rw [same]
      exact normal
  · rename_i id s found
    have stored := scheduleByName_eq_some found
    obtain ⟨-, -, run⟩ := seq_eq_ok.mp run
    split at run
    · obtain ⟨-, -, run⟩ := seq_eq_ok.mp run
      cases run
      exact .refl _
    · simp only [seq_eq_ok] at run
      obtain ⟨-, -, -, -, run⟩ := run
      split at run
      · cases run
        exact .refl _
      · simp only [seq_eq_ok] at run
        obtain ⟨-, -, written, write, finish⟩ := run
        cases finish
        obtain ⟨k, plain, still, step⟩ := redefined_step env s.toScheduleRow d (actor.getD "")
        exact .write write stored step plain still rfl (.inr normal)

theorem putSchedule_path {name : Option String}
    (run : putSchedule env name definition actor expected db = .ok (answer, db')) :
    Reschedules env.toSite env.now unfired db db' := by
  simp only [putSchedule, seq_eq_ok] at run
  obtain ⟨-, -, -, -, cleared, clear, ⟨result, put⟩, unattested, run⟩ := run
  refine (clearAudit_path clear).trans ((putScheduleUnattested_path unattested).trans ?_)
  split at run
  · cases run
    exact .refl _
  · rename_i s found
    obtain ⟨written, write, finish⟩ := seq_eq_ok.mp run
    cases finish
    exact .mark write found rfl rfl rfl

theorem applyMetadata_eq_ok {m : Metadata} {r marked : ScheduleRow} (run : applyMetadata m r = .ok marked) :
    marked.cursor = r.cursor ∧ marked.name = r.name ∧ marked.target = r.target := by
  unfold applyMetadata at run
  split at run <;> cases run
  exact ⟨rfl, rfl, rfl⟩

theorem remarked_cursor (env : Env) (r : ScheduleRow) (actor : Option String) :
    (remarked env r actor).cursor =
      { r.cursor with version := r.version + 1, claim := none, lastAction := none } := rfl

theorem putManagedSchedule_path {name : Option String} {m : Metadata}
    (run : putManagedSchedule env name definition m actor expected db = .ok (answer, db')) :
    Reschedules env.toSite env.now unfired db db' := by
  simp only [putManagedSchedule, seq_eq_ok] at run
  obtain ⟨-, -, -, -, -, -, cleared, clear, ⟨result, put⟩, unattested, run⟩ := run
  refine (clearAudit_path clear).trans ((putScheduleUnattested_path unattested).trans ?_)
  split at run
  · cases run
    exact .refl _
  · rename_i s found
    obtain ⟨marked, mark, run⟩ := seq_eq_ok.mp run
    obtain ⟨same, name, target⟩ := applyMetadata_eq_ok mark
    split at run
    · obtain ⟨written, write, finish⟩ := seq_eq_ok.mp run
      cases finish
      refine .write write found ?_ (k := .hold) (by simp) (fun _ => by simp) name (.inl target)
      have step : Cursor.Step env.now .hold s.cursor _ := .hold s.cursor s.state none id (.inl rfl)
      have version : marked.version = s.version := congrArg Cursor.version same
      rw [remarked_cursor, same, version]
      exact step
    · obtain ⟨written, write, finish⟩ := seq_eq_ok.mp run
      cases finish
      exact .mark write found same name target

end Verbs

section Scheduler

theorem claimSchedule_path {worker : String} {lease : ℤ} {s : Schedule} {claimed : ClaimedSchedule}
    (run : claimSchedule env worker lease id s db = .ok (claimed, db'))
    (stored : db.scheduling.schedules.get? id = some s)
    (good : claimableSchedule env s.toScheduleRow = true) :
    Reschedules env.toSite env.now unfired db db' ∧ ∀ other, other ≠ id →
      db'.scheduling.schedules.get? other = db.scheduling.schedules.get? other := by
  simp only [claimSchedule, newUuid, seq_eq_ok] at run
  obtain ⟨written, write, finish⟩ := run
  cases finish
  obtain ⟨row, same, rfl⟩ := writeSchedule_frame write
  simp only [claimableSchedule, Bool.and_eq_true, decide_eq_true_eq] at good
  obtain ⟨⟨⟨active, due⟩, -⟩, free⟩ := good
  refine ⟨⟨⟨1, _, rfl⟩, .change (.claim stored ?_ fun c held => ?_) fun _ => by simp, rfl,
    .single (.rewrite stored (by rw [same]) (.inl (by rw [same])))⟩,
    fun other apart => Table.get?_put_of_ne _ _ apart⟩
  · rw [same]
    exact .claim s.cursor _ active due free rfl
  · rw [same] at held
    cases held
    rfl

theorem claimAll_path {worker : String} {lease : ℤ} {rows : List (Uuid × Schedule)}
    {claims : List ClaimedSchedule} (run : claimAll env worker lease rows db = .ok (claims, db'))
    (keys : (rows.map Prod.fst).Nodup)
    (ready : ∀ r ∈ rows, db.scheduling.schedules.get? r.1 = some r.2 ∧
      claimableSchedule env r.2.toScheduleRow = true) : Reschedules env.toSite env.now unfired db db' := by
  induction rows generalizing db claims with
  | nil =>
    cases run
    exact .refl _
  | cons row rows ih =>
    simp only [claimAll, seq_eq_ok] at run
    obtain ⟨⟨claimed, mid⟩, first, ⟨rest, last⟩, loop, finish⟩ := run
    cases finish
    obtain ⟨apart, keys⟩ := List.nodup_cons.mp keys
    obtain ⟨stored, good⟩ := ready row (by simp)
    obtain ⟨path, others⟩ := claimSchedule_path first stored good
    refine path.trans (ih loop keys fun r member => ?_)
    rw [others r.1 fun same => apart (same ▸ List.mem_map_of_mem member)]
    exact ready r (by simp [member])

theorem claimSchedules_path {worker : Option String} {limit lease : Option ℤ}
    {claims : List ClaimedSchedule}
    (run : claimSchedules env worker limit lease db = .ok (claims, db')) :
    Reschedules env.toSite env.now unfired db db' := by
  simp only [claimSchedules, seq_eq_ok] at run
  obtain ⟨-, -, -, -, run⟩ := run
  refine claimAll_path run ?_ fun r member => ?_
  · exact (Table.selectBy_keys_nodup _ _ _).sublist ((List.take_sublist _ _).map _)
  · obtain ⟨stored, good⟩ := Table.mem_selectBy.mp (List.mem_of_mem_take member)
    simp only [decide_eq_true_eq] at good
    exact ⟨stored, good.1⟩

theorem currentClaim_eq_some {r : ScheduleRow} {token : Uuid} {version : ℤ} {claim : ScheduleClaim} :
    currentClaim env r token version = some claim ↔
      r.claim = some claim ∧ r.state = .active ∧ r.version = version ∧ claim.token = token ∧
        env.now ≤ claim.expiresAt := by
  simp [currentClaim, Option.filter_eq_some_iff, and_assoc]

theorem scheduleError_path {a : ErrorArgs} {answer : ActionResult}
    (run : scheduleError env a db = .ok (answer, db')) : Reschedules env.toSite env.now unfired db db' := by
  simp only [scheduleError, seq_eq_ok] at run
  obtain ⟨-, -, -, -, run⟩ := run
  split at run
  · cases run
  · rename_i s found
    split at run
    · cases run
      exact .refl _
    · split at run
      · cases run
        exact .refl _
      · rename_i claim current
        obtain ⟨held, active, -, token, -⟩ := currentClaim_eq_some.mp current
        simp only [errorUnderClaim, newUuid, seq_eq_ok] at run
        obtain ⟨written, write, finish⟩ := run
        cases finish
        refine Reschedules.trans ?_ ((Reschedules.mint written).trans (.decide _ _ _))
        exact .write write found (.fail s.cursor claim _ _ _ held token.symm fun _ => active)
          (by simp) (fun _ => by simp) rfl (.inl rfl)

end Scheduler

end Taskq
