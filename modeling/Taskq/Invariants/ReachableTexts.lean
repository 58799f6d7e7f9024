import Taskq.Invariants.StoredTexts
import Taskq.Lifecycle.SchedulePaths
import Taskq.Model.System

/-! Schedules keep the stored texts within their limits as well: so they are in every reachable state. -/
namespace Taskq
open Relational

section Schedules

variable {env : Env} {id : Uuid} {r : ScheduleRow} {name actor : Option String} {expected : Option ℤ} {db : Db}

theorem writeSchedule_brief (brief : db.Brief) (row : Brief 2048 r.lastError) : Yields Db.Brief (writeSchedule id r db) := by
  refine Yields.seq (P := fun s => s.toScheduleRow = r) (fun s run => ?_) fun s same =>
    yields_ok ⟨brief.jobs, brief.attempts, brief.workflows, put_all (P := fun s : Schedule => Brief 2048 s.lastError)
      brief.schedules id (by rwa [same]), brief.events⟩
  unfold storeSchedule at run
  split at run <;> cases run
  rfl

theorem scheduleByName_brief (brief : db.Brief) {n : String} {s : Schedule} (found : scheduleByName db n = some (id, s)) :
    Brief 2048 s.lastError := brief.schedules id s (scheduleByName_eq_some found)

theorem Db.Brief.putDecision (brief : db.Brief) (id : Uuid) (d : Decision) : (db.putDecision id d).Brief :=
  ⟨brief.jobs, brief.attempts, brief.workflows, brief.schedules, brief.events⟩

theorem putScheduleUnattested_brief (definition : Jsonb) (brief : db.Brief) :
    Yields Db.BriefAfter (putScheduleUnattested env name definition actor expected db) := by
  refine yields_after fun _ => yields_after fun _ => yields_after fun _ => yields_after fun d => ?_
  dsimp only [newUuid]
  split
  · exact yields_after fun _ => yields_after fun _ => yields_after fun _ =>
      Yields.seq (writeSchedule_brief brief.minted (.none _)) fun db brief => yields_ok brief
  · refine yields_after fun _ => ?_
    split
    · exact yields_after fun _ => yields_ok brief
    · refine yields_after fun _ => yields_after fun _ => ?_
      split
      · exact yields_ok brief
      · exact yields_after fun _ => Yields.seq (writeSchedule_brief brief (.none _)) fun db brief => yields_ok brief

theorem clearAudit_brief (definition : Jsonb) (brief : db.Brief) : Yields Db.Brief (clearAudit env name definition db) := by
  refine yields_after fun paused => ?_
  split
  · exact yields_ok brief
  · rename_i id s found
    obtain ⟨n, -, found⟩ := Option.bind_eq_some_iff.mp found
    have row := scheduleByName_brief brief found
    split
    · exact yields_ok brief
    · exact writeSchedule_brief brief row

theorem putSchedule_brief (definition : Jsonb) (brief : db.Brief) :
    Yields Db.BriefAfter (putSchedule env name definition actor expected db) := by
  refine yields_after fun _ => yields_after fun _ => Yields.seq (clearAudit_brief definition brief) fun db brief =>
    Yields.seq (putScheduleUnattested_brief definition brief) fun ⟨result, db⟩ brief => ?_
  dsimp only
  split
  · exact yields_ok brief
  · rename_i s stored
    have row := brief.schedules _ s stored
    exact Yields.seq (writeSchedule_brief brief row) fun db brief => yields_ok brief

theorem putManagedSchedule_brief (definition : Jsonb) (m : Metadata) (brief : db.Brief) :
    Yields Db.BriefAfter (putManagedSchedule env name definition m actor expected db) := by
  refine yields_after fun _ => yields_after fun _ => yields_after fun _ =>
    Yields.seq (clearAudit_brief definition brief) fun db brief =>
      Yields.seq (putScheduleUnattested_brief definition brief) fun ⟨result, db⟩ brief => ?_
  dsimp only
  split
  · exact yields_ok brief
  · rename_i s stored
    refine Yields.seq (P := fun marked => marked.lastError = s.lastError) (fun marked run => ?_) fun marked same => ?_
    · unfold applyMetadata at run
      split at run <;> cases run
      rfl
    · have row : Brief 2048 marked.lastError := same ▸ brief.schedules _ s stored
      split
      · exact Yields.seq (writeSchedule_brief brief (.none _)) fun db brief => yields_ok brief
      · exact Yields.seq (writeSchedule_brief brief row) fun db brief => yields_ok brief

theorem retireSchedule_brief (n : String) (brief : db.Brief) :
    Yields Db.BriefAfter (retireSchedule env n expected actor db) := by
  refine yields_after fun _ => yields_after fun _ => ?_
  split
  · exact yields_error
  · rename_i id s found
    have row := scheduleByName_brief brief (Option.filter_eq_some_iff.mp found).1
    refine yields_after fun _ => ?_
    split
    · exact yields_ok brief
    · exact Yields.seq (writeSchedule_brief brief row) fun db brief => yields_ok brief

theorem setScheduleState_brief (n : String) (active : Bool) (reason : Option String) (brief : db.Brief) :
    Yields Db.BriefAfter (setScheduleState env n active expected actor reason db) := by
  refine yields_after fun _ => yields_after fun _ => ?_
  dsimp only [newUuid]
  split
  · exact yields_error
  · rename_i id s found
    have row := scheduleByName_brief brief.minted (Option.filter_eq_some_iff.mp found).1
    exact yields_after fun _ => yields_after fun _ => yields_ite (yields_ok brief.minted) <|
      Yields.seq (writeSchedule_brief brief.minted row) fun db brief => yields_ok (brief.minted.putDecision _ _)

theorem setScheduleSmear_brief (smear : Option ℤ) (brief : db.Brief) :
    Yields Db.Brief (setScheduleSmear env name smear db) := by
  refine yields_after fun _ => yields_after fun _ => ?_
  split
  · exact yields_error
  · rename_i id s found
    obtain ⟨n, -, found⟩ := Option.bind_eq_some_iff.mp found
    have row := scheduleByName_brief brief found
    split
    · exact yields_ok brief
    · exact writeSchedule_brief brief row

end Schedules

section Scheduler

variable {env : Env} {id : Uuid} {s : ScheduleRow} {claim : ScheduleClaim} {db : Db}

theorem claimAll_brief (worker : String) (lease : ℤ) (rows : List (Uuid × Schedule))
    (known : ∀ e ∈ rows, Brief 2048 e.2.lastError) (brief : db.Brief) :
    Yields Db.BriefAfter (claimAll env worker lease rows db) := by
  induction rows generalizing db with
  | nil => exact yields_ok brief
  | cons e rows ih =>
    obtain ⟨first, rest⟩ := List.forall_mem_cons.mp known
    refine Yields.seq (P := Db.BriefAfter) ?_ fun ⟨_, db⟩ brief =>
      Yields.seq (ih rest brief) fun ⟨_, db⟩ brief => yields_ok brief
    unfold claimSchedule
    dsimp only [newUuid]
    exact Yields.seq (writeSchedule_brief brief.minted first) fun db brief => yields_ok brief

theorem claimSchedules_brief (worker : Option String) (limit lease : Option ℤ) (brief : db.Brief) :
    Yields Db.BriefAfter (claimSchedules env worker limit lease db) :=
  yields_after fun _ => yields_after fun _ => claimAll_brief _ _ _ (fun e there =>
    brief.schedules e.1 e.2 (Table.mem_selectBy.mp (List.mem_of_mem_take there)).1) brief

theorem Db.Brief.putOccurrence (brief : db.Brief) (key : Uuid × Time) (o : Occurrence) : (db.putOccurrence key o).Brief :=
  ⟨brief.jobs, brief.attempts, brief.workflows, brief.schedules, brief.events⟩

theorem performFired_brief (occurrence : Uuid) (due : Time) (late : ℤ) (outcome : OccurrenceOutcome) (brief : db.Brief) :
    Yields Db.BriefAfter (performFired env id s claim occurrence due late outcome db) := by
  unfold performFired
  split
  · unfold performOccurrence
    split
    · exact yields_after fun _ => Yields.seq (janitor_brief brief) fun _ brief => yields_ok brief
    · exact yields_after fun args => Yields.seq (enqueue_brief args brief) fun _ brief => yields_ok brief
  · exact yields_ok brief

theorem fireOccurrence_brief (decision : Uuid) (due : Time) (counts : FireCounts) (brief : db.Brief) :
    Yields Db.BriefAfter (fireOccurrence env id s claim decision due counts db) := by
  unfold fireOccurrence
  dsimp only [newUuid]
  split
  · exact yields_ok brief
  · exact yields_after fun late => Yields.seq (performFired_brief _ _ _ _ (brief.minted.putOccurrence _ _))
      fun _ brief => yields_ok (brief.putOccurrence _ _)

theorem fireOccurrences_brief (decision : Uuid) (occurrences : List Time) (counts : FireCounts) (brief : db.Brief) :
    Yields Db.BriefAfter (fireOccurrences env id s claim decision occurrences counts db) := by
  induction occurrences generalizing counts db with
  | nil => exact yields_ok brief
  | cons due rest ih => exact Yields.seq (fireOccurrence_brief _ _ _ brief) fun ⟨_, db⟩ brief => ih _ brief

theorem fireSchedule_brief (a : FireArgs) (brief : db.Brief) : Yields Db.BriefAfter (fireSchedule env a db) := by
  refine yields_after fun _ => ?_
  dsimp only [newUuid]
  refine yields_after fun _ => ?_
  split
  · exact yields_error
  · split
    · exact yields_ok brief.minted
    · split
      · exact yields_ok brief.minted
      · exact yields_after fun _ => Yields.seq (fireOccurrences_brief _ _ _ brief.minted) fun ⟨_, db⟩ brief =>
          Yields.seq (writeSchedule_brief (brief.putDecision _ _) (.none _)) fun db brief => yields_ok brief

theorem scheduleError_brief (a : ErrorArgs) (brief : db.Brief) : Yields Db.BriefAfter (scheduleError env a db) := by
  have stored : Brief 2048 (some (truncateUtf8 a.error 2048)) := brief_storedText (some a.error)
  refine yields_after fun _ => yields_after fun _ => ?_
  split
  · exact yields_error
  · split
    · exact yields_ok brief
    · split
      · exact yields_ok brief
      · unfold errorUnderClaim
        dsimp only [newUuid]
        exact Yields.seq (writeSchedule_brief brief stored) fun db brief => yields_ok (brief.minted.putDecision _ _)

end Scheduler

/-- The state that a call leaves behind. -/
theorem yields_state {α : Type} {call : Call (α × Db)} (first : Yields Db.BriefAfter call) :
    Yields Db.Brief (call.map (·.2)) := Yields.map (R := Db.Brief) first

/-- One call keeps every stored text within its limit. -/
theorem Command.exec_brief {env : Env} {db : Db} (command : Command) (brief : db.Brief) :
    Yields Db.Brief (command.exec env db) := by
  cases command with
  | enqueue a => exact yields_state (enqueue_brief a brief)
  | tryEnqueue a => exact yields_state (tryEnqueue_brief a brief)
  | enqueueMany => exact yields_state (enqueueMany_brief _ _ brief)
  | reserveAdmission => exact yields_state (reserveAdmission_brief _ _ _ brief)
  | finishAdmission => exact yields_state (finishAdmission_brief _ _ brief)
  | cancelAdmission => exact yields_state (cancelAdmission_brief brief)
  | claimJobs a => exact yields_state (claimJobs_brief brief)
  | claimJobsWithPolicies a hashes => exact yields_state (claimJobsWithPolicies_brief hashes brief)
  | heartbeat => exact yields_state (heartbeat_brief _ _ _ brief)
  | completeJob => exact yields_state (completeJob_brief _ _ _ brief)
  | completeJobWithPolicy => exact yields_state (completeJobWithPolicy_brief _ _ _ _ brief)
  | failJob => exact yields_state (failJob_brief _ _ _ _ _ brief)
  | snoozeJob => exact yields_state (snoozeJob_brief _ _ _ brief)
  | releaseJob => exact yields_state (releaseJob_brief _ _ _ brief)
  | cancelRunningJob => exact yields_state (cancelRunningJob_brief _ brief)
  | cancelJob => exact yields_state (cancelJob_brief brief _ _)
  | purgeQueued => exact yields_state (purgeQueued_brief brief _ _ _ _)
  | expireJob => exact yields_state (expireJob_brief brief _)
  | expireWorkerLeases => exact yields_state (expireWorkerLeases_brief brief _)
  | redriveJob => exact redriveJob_brief brief _ _
  | redriveFailed => exact yields_state (redriveFailed_brief brief _ _ _ _)
  | runNow => exact runNow_brief brief _
  | reprioritize => exact reprioritize_brief brief _ _
  | reapExpired => exact yields_state (reapExpired_brief brief _)
  | expireTtl => exact yields_state (expireTtl_brief brief _)
  | finalizeCancelStragglers => exact yields_state (finalizeCancelStragglers_brief brief _)
  | cancelDependents => exact yields_state (cancelDependents_brief brief _ _ _)
  | finalizeDepStragglers => exact yields_state (finalizeDepStragglers_brief brief _)
  | createWorkflow => exact yields_state (createWorkflow_brief brief _ _ _ _ _)
  | createContinuationWorkflow => exact yields_state (createContinuationWorkflow_brief brief _ _ _ _ _ _ _)
  | sealWorkflow => exact yields_state (sealWorkflow_brief brief _)
  | cancelWorkflow => exact yields_state (cancelWorkflow_brief brief _ _)
  | advanceWorkflowCancellations => exact yields_state (advanceWorkflowCancellations_brief brief _)
  | finalizeWorkflows => exact yields_state (finalizeWorkflows_brief brief _)
  | tick => exact yields_state (tick_brief _ brief)
  | janitor => exact yields_state (janitor_brief brief)
  | ensureQueue => exact yields_state (ensureQueue_brief _ _ brief)
  | pauseQueue => exact yields_state (pauseQueue_brief _ brief)
  | resumeQueue => exact yields_state (resumeQueue_brief brief)
  | setConcurrencyLimit => exact yields_state (setConcurrencyLimit_brief _ _ brief)
  | setFlowLimit => exact yields_state (setFlowLimit_brief _ _ _ brief)
  | setBreakerConfig =>
    exact yields_state (yields_after fun _ => yields_after fun _ => yields_after fun _ => yields_after fun _ =>
      yields_ok (upsertFlow_brief _ brief))
  | setBreakerRate => exact yields_after fun _ => yields_after fun _ => updateBreaker_brief _ brief
  | setBreakerLatency => exact yields_after fun _ => yields_after fun _ => updateBreaker_brief _ brief
  | tripBreaker => exact updateBreaker_brief _ brief
  | forceCloseBreaker => exact updateBreaker_brief _ brief
  | setPriorityAging => exact yields_state (yields_after fun _ => yields_after fun _ => yields_ok (upsertFlow_brief _ brief))
  | bindQueueAdmissionOwner => exact bindQueueAdmissionOwner_brief _ brief
  | adoptQueueAdmissionOwner => exact adoptQueueAdmissionOwner_brief _ _ _ brief
  | rotateQueueAdmissionOwner => exact rotateQueueAdmissionOwner_brief _ _ _ brief
  | putSchedule => exact yields_state (putSchedule_brief _ brief)
  | putManagedSchedule => exact yields_state (putManagedSchedule_brief _ _ brief)
  | setScheduleState => exact yields_state (setScheduleState_brief _ _ _ brief)
  | retireSchedule => exact yields_state (retireSchedule_brief _ brief)
  | setScheduleSmear => exact setScheduleSmear_brief _ brief
  | claimSchedules => exact yields_state (claimSchedules_brief _ _ _ brief)
  | fireSchedule a => exact yields_state (fireSchedule_brief a brief)
  | scheduleError a => exact yields_state (scheduleError_brief a brief)

theorem Db.installed_brief (site : Site) (now : Time) : (Db.installed site now).Brief :=
  ⟨fun _ _ stored => (nomatch stored), fun _ _ stored => (nomatch stored), fun _ _ stored => (nomatch stored),
    put_all (P := fun s : Schedule => Taskq.Brief 2048 s.lastError) (fun _ _ stored => by cases stored) 1 (.none _),
    fun _ there => (nomatch there)⟩

/-- In every reachable state every stored text is within its limit. -/
theorem System.Reachable.brief {site : Site} {allowed : System → Env → Command → Prop} {s : System}
    (reachable : System.Reachable site allowed s) : s.db.Brief := by
  refine reachable.induction (I := fun s => s.db.Brief) (fun now => Db.installed_brief site now) fun brief _ step => ?_
  cases step with
  | commit _ _ run => exact Command.exec_brief _ brief _ run

end Taskq
