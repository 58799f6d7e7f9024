import Taskq.Lifecycle.SchedulePaths
import Taskq.Model.Scripts

/-! The scripts of the verbs that set up a name. By itself, with no other transaction around, each does what its verb
does. -/
namespace Taskq
open Relational

variable {env : Env} {db : Db} {clash : SqlError}

/-- By itself the script of `ensure_queue` does what the verb does. -/
theorem ensureQueueScript_alone (name : Option String) (profile : Option Jsonb) :
    (ensureQueueScript env name profile).alone clash (name.bind db.queues.get?) =
      (ensureQueue env name profile db).map fun (answer, db') => (answer, name.bind db'.queues.get?) := by
  unfold ensureQueueScript ensureQueue
  cases name with
  | none => rfl
  | some n =>
    simp only [Script.attempt_alone, bind_assoc, Option.any_some, Script.alone, Option.bind_some, map_next]
    refine bind_congr fun _ => bind_congr fun _ => bind_congr fun _ => ?_
    cases found : db.queues.get? n with
    | none =>
      simp only [Script.attempt_alone, map_next]
      refine bind_congr fun q => ?_
      simp [Except.map, Script.alone, Db.putQueue]
    | some old =>
      simp only [Script.attempt_alone, map_next]
      refine bind_congr fun q => ?_
      split_ifs <;> simp [Except.map, Script.alone, Db.putQueue, found]

/-- By itself the script of `set_flow_limit` does what the verb does. -/
theorem setFlowLimitScript_alone (key : Option String) (rate burst : Option ℤ) :
    (setFlowLimitScript key rate burst).alone clash (db.flowLimits.get? (key.getD "")) =
      (setFlowLimit key rate burst db).map fun (answer, db') => (answer, db'.flowLimits.get? (key.getD "")) := by
  unfold setFlowLimitScript setFlowLimit
  simp only [Script.attempt_alone, bind_assoc, Script.alone, map_next]
  refine bind_congr fun _ => bind_congr fun _ => bind_congr fun _ => ?_
  cases found : db.flowLimits.get? (key.getD "") with
  | none => simp [Except.map, Script.alone]
  | some old =>
    dsimp only
    split_ifs <;> simp [Except.map, Script.alone, found]

theorem declareQueues_length {queues : Option (List String)} {declared : List String}
    (run : declareQueues queues db = .ok declared) : 1 ≤ declared.length ∧ declared.length ≤ 32 := by
  simp only [declareQueues, seq_eq_ok, ensure_eq_ok] at run
  obtain ⟨-, ⟨low, high, -⟩, -, -, done⟩ := run
  cases done
  rw [List.length_insertionSort]
  exact ⟨low, high⟩

/-- By itself the script of `create_workflow` does what the verb does. -/
theorem createWorkflowScript_alone (fresh : db.workflows.get? db.nextUuid = none) (key kind : Option String)
    (params : Option Jsonb) (queues : Option (List String)) (actor : Option String) :
    (createWorkflowScript env db.nextUuid key kind params queues actor db).alone clash
        (workflowByKey db.toCore (key.getD "")) =
      (createWorkflow env key kind params queues actor db).map fun (answer, db') =>
        (answer, workflowByKey db'.toCore (key.getD "")) := by
  unfold createWorkflowScript createWorkflow
  simp only [Script.attempt_alone, bind_assoc, map_next]
  refine bind_congr fun _ => bind_congr fun _ => bind_congr fun _ => bind_congr fun _ => bind_congr_ok fun declared run => ?_
  obtain ⟨low, high⟩ := declareQueues_length run
  generalize row : newWorkflow env (key.getD "") ((kind.bind WorkflowKind.ofText?).getD .dag) (params.getD .null)
    (actor.getD "") declared 10000 none = r
  have checks : r.checksOk = true := by
    subst row
    simp [WorkflowRow.checksOk, newWorkflow, low, high]
  have store : storeWorkflow r = .ok ⟨r, checks⟩ := dif_pos checks
  have keyed : r.workflowKey = key.getD "" := by rw [← row]; rfl
  rw [store]
  unfold insertOrFindWorkflow
  rw [keyed]
  dsimp only [newUuid]
  cases found : workflowByKey db.toCore (key.getD "") with
  | none =>
    have absent (id : Uuid) (w : Workflow) (stored : db.workflows.get? id = some w)
        (same : decide (w.workflowKey = key.getD "") = true) : id = db.nextUuid := by
      have member : (id, w) ∈ db.workflows.select fun _ w => w.workflowKey = key.getD "" :=
        Table.mem_select.mpr ⟨stored, same⟩
      rw [List.head?_eq_none_iff.mp found] at member
      cases member
    have named : ((db.workflows.put db.nextUuid ⟨r, checks⟩).select fun _ w => w.workflowKey = key.getD "").head? =
        some (db.nextUuid, ⟨r, checks⟩) := Table.select_put_head (decide_eq_true keyed) absent
    have found : workflowByKey { db.toCore with nextUuid := db.nextUuid + 1 } (key.getD "") = none := found
    simp only [found, insertWorkflow, writeWorkflow, fresh, store, ensure, bind, Except.bind, Except.map,
      Script.alone, Option.isNone_none, if_true]
    exact congrArg (fun row => Except.ok (_, row)) named.symm
  | some existing =>
    obtain ⟨id, w⟩ := existing
    have found' : workflowByKey { db.toCore with nextUuid := db.nextUuid + 1 } (key.getD "") = some (id, w) := found
    simp only [found', Script.alone, bind, Except.bind, Script.attempt_alone, Bool.and_eq_true, Option.isNone_iff_eq_none]
    unfold ensure
    split_ifs with same
    · exact congrArg (fun row => Except.ok (_, row)) found.symm
    · rfl

/-- A name belongs to one schedule. -/
def UniqueNames (db : Db) : Prop := ∀ id s id' s', db.scheduling.schedules.get? id = some s →
  db.scheduling.schedules.get? id' = some s' → s.name = s'.name → id = id'

theorem scheduleByName_named {n : String} {id : Uuid} {s : Schedule} (found : scheduleByName db n = some (id, s)) :
    db.scheduling.schedules.get? id = some s ∧ s.name = n := by
  have member := Table.mem_select.mp (List.mem_of_mem_head? found)
  exact ⟨member.1, of_decide_eq_true member.2⟩

theorem UniqueNames.put (unique : UniqueNames db) {n : String} {id : Uuid} {s : Schedule} (named : s.name = n)
    (mine : ∀ id' s', scheduleByName db n = some (id', s') → id' = id) :
    scheduleByName (db.putSchedule id s) n = some (id, s) := by
  refine Table.select_put_head (decide_eq_true named) fun id' s' stored same => ?_
  have same : s'.name = n := of_decide_eq_true same
  cases found : scheduleByName db n with
  | none => exact absurd same (scheduleByName_eq_none found stored)
  | some e =>
    obtain ⟨other, named⟩ := scheduleByName_named found
    rw [← mine _ _ found]
    exact unique _ _ _ _ stored other (same.trans named.symm)

theorem UniqueNames.insert (unique : UniqueNames db) {n : String} {id : Uuid} {s : Schedule}
    (absent : scheduleByName db n = none) (named : s.name = n) : UniqueNames (db.putSchedule id s) := by
  intro i a j b first second same
  simp only [Db.putSchedule, Table.get?_put] at first second
  split_ifs at first second with mine yours yours
  · exact mine.trans yours.symm
  · cases first
    exact absurd (same.symm.trans named) (scheduleByName_eq_none absent second)
  · cases second
    exact absurd (same.trans named) (scheduleByName_eq_none absent first)
  · exact unique i a j b first second same

theorem UniqueNames.update (unique : UniqueNames db) {id : Uuid} {s s' : Schedule}
    (stored : db.scheduling.schedules.get? id = some s) (named : s'.name = s.name) :
    UniqueNames (db.putSchedule id s') := by
  intro i a j b first second same
  simp only [Db.putSchedule, Table.get?_put] at first second
  split_ifs at first second with mine yours yours
  · exact mine.trans yours.symm
  · cases first
    exact mine.trans (unique _ _ _ _ stored second (named.symm.trans same))
  · cases second
    exact (unique _ _ _ _ first stored (same.trans named)).trans yours.symm
  · exact unique i a j b first second same

/-- The last `UPDATE` of `put_schedule`. -/
def recordColumns (env : Env) (result : WriteResult) (db : Db) : Call (WriteResult × Db) :=
  match scheduleById db result.scheduleId with
  | none => .ok (result, db)
  | some s => do
    let db ← writeSchedule result.scheduleId { s.toScheduleRow with
      manifestKey := if s.manifestKey = "legacy" then s.name else s.manifestKey
      displayName := if s.displayName = "legacy" then s.name else s.displayName
      definitionHash := definitionHash env s.toScheduleRow
      consecutiveDefinitionErrors :=
        if result.outcome = .updated then 0 else s.consecutiveDefinitionErrors
      pausedAudit := if result.outcome = .updated then none else s.pausedAudit } db
    .ok (result, db)

theorem putSchedule_eq (name : Option String) (definition : Jsonb) (actor : Option String) (expected : Option ℤ) :
    putSchedule env name definition actor expected db = (do
      ensure env.attested attestationRequired
      ensure (reservedHeader definition = false) (tq422 "taskq_schedule header is reserved")
      let db ← clearAudit env name definition db
      let (result, db) ← putScheduleUnattested env name definition actor expected db
      recordColumns env result db) := rfl

/-- The derived columns of a row that was not changed otherwise. -/
theorem recordColumns_alone (unique : UniqueNames db) {n : String} {result : WriteResult} {s : Schedule}
    (kept : result.outcome ≠ .updated) (stored : db.scheduling.schedules.get? result.scheduleId = some s)
    (named : s.name = n) :
    (Script.update (changeSchedule (deriveColumns env)) (.answer result)).alone clash (some (result.scheduleId, s)) =
      (recordColumns env result db).map fun (answer, db') => (answer, scheduleByName db' n) := by
  have checks : (deriveColumns env s.toScheduleRow).checksOk = true := s.checks
  have store : storeSchedule (deriveColumns env s.toScheduleRow) = .ok ⟨_, checks⟩ := dif_pos checks
  have found : scheduleByName (db.putSchedule result.scheduleId ⟨_, checks⟩) n = some (result.scheduleId, ⟨_, checks⟩) := by
    refine unique.put named fun id' s' there => ?_
    obtain ⟨stored', named'⟩ := scheduleByName_named there
    exact unique _ _ _ _ stored' stored (named'.trans named.symm)
  have write : writeSchedule result.scheduleId (deriveColumns env s.toScheduleRow) db =
      .ok (db.putSchedule result.scheduleId ⟨_, checks⟩) := by
    unfold writeSchedule
    rw [store]
    rfl
  unfold recordColumns
  rw [show scheduleById db result.scheduleId = some s from stored]
  simp only [if_neg kept]
  refine .trans ?_ (congrArg (fun call : Call Db => (call >>= fun db => Except.ok (result, db)).map
    fun (answer, db') => (answer, scheduleByName db' n)) write.symm)
  simp only [Script.alone, changeSchedule, store, bind, Except.bind, Except.map, found]

/-- What `put_schedule` does after its first statement. -/
theorem putScheduleUnattestedScript_alone (unique : UniqueNames db) (fresh : scheduleById db db.nextUuid = none)
    (name : Option String) (definition : Jsonb) (actor : Option String) :
    (putScheduleUnattestedScript env db.nextUuid name definition actor db).alone clash (name.bind (scheduleByName db)) =
      (putScheduleUnattested env name definition actor none db >>= fun (result, db) => recordColumns env result db).map
        fun (answer, db') => (answer, name.bind (scheduleByName db')) := by
  unfold putScheduleUnattestedScript putScheduleUnattested
  cases name with
  | none => rfl
  | some n =>
    simp only [Script.attempt_alone, bind_assoc, map_next, Option.any_some, Option.bind_some, Option.getD_some]
    refine bind_congr fun _ => bind_congr fun _ => ?_
    change (parseDefinition env definition db >>= _) = (parseDefinition env definition db >>= _)
    refine bind_congr fun d => ?_
    rw [Script.alone]
    cases found : scheduleByName db n with
    | none =>
      have fresh : scheduleById (newUuid db).2 (newUuid db).1 = none := fresh
      rw [fresh]
      dsimp only
      rw [Script.attempt_alone]
      simp only [writeSchedule, bind_assoc]
      change (d.checkPolicy >>= _) = (d.checkPolicy >>= _)
      refine bind_congr fun _ => ?_
      change (storeSchedule _ >>= _) = (storeSchedule _ >>= _)
      refine bind_congr_ok fun s store => ?_
      have named : s.name = n := by
        unfold storeSchedule at store
        split_ifs at store
        cases store
        rfl
      have unique : UniqueNames ((newUuid db).2.putSchedule (newUuid db).1 s) := UniqueNames.insert unique found named
      have stored : ((newUuid db).2.putSchedule (newUuid db).1 s).scheduling.schedules.get?
          ((newSchedule env n d (actor.getD "")).result .created (newUuid db).1).scheduleId = some s :=
        Table.get?_put_self _ _ _
      exact recordColumns_alone unique (by simp [ScheduleRow.result]) stored named
    | some e =>
      obtain ⟨id, s⟩ := e
      obtain ⟨stored, named⟩ := scheduleByName_named found
      simp only [Script.attempt_alone, bind_assoc]
      refine bind_congr fun _ => bind_congr fun _ => ?_
      exact recordColumns_alone unique (by simp [ScheduleRow.result]) stored named

/-- By itself the script of `put_schedule` does what the verb does. -/
theorem putScheduleScript_alone (unique : UniqueNames db) (fresh : scheduleById db db.nextUuid = none)
    (name : Option String) (definition : Jsonb) (actor : Option String) :
    (putScheduleScript env db.nextUuid name definition actor db).alone clash (name.bind (scheduleByName db)) =
      (putSchedule env name definition actor none db).map fun (answer, db') =>
        (answer, name.bind (scheduleByName db')) := by
  rw [putSchedule_eq]
  unfold putScheduleScript clearAudit
  simp only [Script.attempt_alone, bind_assoc, map_next]
  refine bind_congr fun _ => bind_congr fun _ => bind_congr fun paused => ?_
  have rest : Script.alone clash (putScheduleUnattestedScript env _ _ _ _ _) _ = _ :=
    putScheduleUnattestedScript_alone unique fresh name definition actor
  rw [map_next] at rest
  cases found : name.bind (scheduleByName db) with
  | none =>
    rw [found] at rest
    cases paused <;> exact rest
  | some e =>
    obtain ⟨id, s⟩ := e
    rw [found] at rest
    cases paused with
    | true => exact rest
    | false =>
      cases store : storeSchedule { s.toScheduleRow with pausedAudit := none } with
      | error e => simp [Script.alone, changeSchedule, writeSchedule, store, bind, Except.bind]
      | ok s' =>
        obtain ⟨n, rfl, found⟩ := Option.bind_eq_some_iff.mp found
        obtain ⟨stored, named⟩ := scheduleByName_named found
        have renamed : s'.name = s.name := by
          unfold storeSchedule at store
          split_ifs at store
          cases store
          rfl
        have fresh' : scheduleById (db.putSchedule id s') db.nextUuid = none := by
          refine (Table.get?_put_of_ne _ _ fun same => ?_).trans fresh
          rw [← same] at stored
          exact Option.some_ne_none s (stored.symm.trans fresh)
        have rest : Script.alone clash (putScheduleUnattestedScript env _ _ _ _ _) _ = _ :=
          putScheduleUnattestedScript_alone (unique.update stored renamed) fresh'
          (some n) definition actor
        rw [map_next, Option.bind_some, unique.put (renamed.trans named) fun id' r there => by
          cases found.symm.trans there
          rfl] at rest
        have same : putScheduleUnattestedScript env (db.putSchedule id s').nextUuid (some n) definition actor
            (db.putSchedule id s') = putScheduleUnattestedScript env db.nextUuid (some n) definition actor db := rfl
        rw [same] at rest
        simp only [Bool.false_eq_true, if_false, Script.alone, changeSchedule, writeSchedule, store, bind, Except.bind]
        exact rest

end Taskq
