import Taskq.Lifecycle.BulkPaths
import Taskq.Lifecycle.ClaimPaths
import Taskq.Lifecycle.CompletionPaths
import Taskq.Lifecycle.FirePaths

/-! Every call as a sequence of transitions, and what every call does to the schedules. -/
namespace Taskq
open Relational

variable {env : Env} {db db' : Db} {command : Command}

/-- The sets of labels from which a call takes its transitions; it uses one of them. -/
def Command.footprints (env : Env) (db : Db) : Command → Set (Set Label)
  | .enqueue _ | .tryEnqueue _ | .enqueueMany .. => {admissions db.nextUuid}
  | .finishAdmission .. => {receipts db.nextUuid}
  | .claimJobs _ | .claimJobsWithPolicies .. => {starts, reclaims (lapsed env db.toCore)}
  | .heartbeat jobId .. => {changesOf jobId [.beat]}
  | .completeJob jobId .. | .completeJobWithPolicy jobId .. => {completions jobId db.nextUuid}
  | .failJob jobId _ _ _ retryable .. => {changesOf jobId (.cancelRunning :: failing retryable) ∪ dependents}
  | .snoozeJob jobId .. => {changesOf jobId [.cancelRunning, .snooze] ∪ dependents}
  | .releaseJob jobId .. => {changesOf jobId [.cancelRunning, .release] ∪ dependents}
  | .cancelRunningJob jobId .. => {changesOf jobId [.cancelRunning] ∪ dependents}
  | .cancelJob id .. => {changesOf id cancelling ∪ dependents}
  | .purgeQueued queue .. => {sweeps (blockedOf (purgeable env queue db.toCore) db)}
  | .expireJob id _ => {changesOf id (.beat :: expiring) ∪ dependents}
  | .expireWorkerLeases worker => {revocations (heldBy worker db.toCore)}
  | .redriveJob id .. => {changesOf id [.redrive]}
  | .redriveFailed .. => {redrives}
  | .runNow id _ | .reprioritize id .. => {changesOf id [.adjust]}
  | .reapExpired _ => {reclaims (lapsed env db.toCore)}
  | .expireTtl _ => {sweeps (blockedOf (ttlExpired env db.toCore) db)}
  | .finalizeCancelStragglers _ => {sweeps (blockedOf (cancelStragglers env db.toCore) db)}
  | .cancelDependents .. => {dependents}
  | .finalizeDepStragglers _ => {promotions ∪ dependents}
  | .createWorkflow .. | .createContinuationWorkflow .. => {creations}
  | .sealWorkflow w _ => {{.changeWorkflow w}}
  | .cancelWorkflow w .. => {abandons w}
  | .advanceWorkflowCancellations _ => {withdrawals}
  | .finalizeWorkflows _ => {finalizations}
  | .tick _ => {ticks (lapsed env db.toCore) (ttlBlocked env db.toCore ∪ askedBlocked db.toCore)}
  | .janitor => {deletions}
  | .fireSchedule _ => {firings db.nextUuid}
  | _ => {idleLabels}

/-- A claim asks the breaker of its queue, and then makes its statements. -/
def Asks (env : Env) (queue : String) (db db' : Db) : Prop :=
  ∃ wait gated log, breakerGate env queue db = .ok (wait, gated) ∧ Sequence (ClaimStatement env) log gated db'

/-- Calls that configure queues, limits and breakers change only these; all others are made of
statements, and only a claim makes those of the gates. -/
def Command.acts (env : Env) (db db' : Db) : Command → Prop
  | .ensureQueue .. | .pauseQueue .. | .resumeQueue .. | .setConcurrencyLimit .. | .setFlowLimit ..
  | .setBreakerConfig .. | .setBreakerRate .. | .setBreakerLatency .. | .tripBreaker ..
  | .forceCloseBreaker .. | .setPriorityAging .. => Setting env db db'
  | .claimJobs args | .claimJobsWithPolicies args _ => Asks env args.queue db db'
  | _ => Logs env db db'

/-- Configuration leaves the scheduler as it is, and a call that writes schedules leaves the queues; only a
change of owner writes both, and every other call writes neither. Admissions are written by the calls of the
two-phase protocol and by the janitor, occurrences by fire calls and the janitor. -/
def Command.keeps (db db' : Db) : Command → Prop
  | .ensureQueue .. | .pauseQueue .. | .resumeQueue .. | .setConcurrencyLimit .. | .setFlowLimit ..
  | .setBreakerConfig .. | .setBreakerRate .. | .setBreakerLatency .. | .tripBreaker ..
  | .forceCloseBreaker .. | .setPriorityAging .. =>
    db'.scheduling = db.scheduling ∧ db'.admissions = db.admissions
  | .bindQueueAdmissionOwner .. | .adoptQueueAdmissionOwner .. | .rotateQueueAdmissionOwner .. =>
    db'.admissions = db.admissions ∧ db'.scheduling.occurrences = db.scheduling.occurrences
  | .putSchedule .. | .putManagedSchedule .. | .setScheduleState .. | .retireSchedule ..
  | .setScheduleSmear .. | .claimSchedules .. | .scheduleError _ =>
    db'.queues = db.queues ∧ db'.admissions = db.admissions ∧
      db'.scheduling.occurrences = db.scheduling.occurrences
  | .fireSchedule _ => db'.queues = db.queues
  | .janitor => db'.scheduling.schedules = db.scheduling.schedules ∧ db'.queues = db.queues
  | .reserveAdmission .. | .finishAdmission .. | .cancelAdmission .. =>
    db'.scheduling = db.scheduling ∧ db'.queues = db.queues
  | _ => db'.scheduling = db.scheduling ∧ db'.queues = db.queues ∧ db'.admissions = db.admissions

theorem Trail.used {S : Set Label} (trail : Trail env S db db') :
    (∃ F ∈ ({S} : Set (Set Label)), Steps F db.toCore db'.toCore) ∧ Logs env db db' :=
  ⟨⟨S, rfl, trail.steps⟩, trail.logs⟩

theorem Path.kept {S : Set Label} (path : Path env S db db') :
    db'.scheduling = db.scheduling ∧ db'.queues = db.queues ∧ db'.admissions = db.admissions :=
  ⟨congrArg (·.1) path.settings, congrArg (·.2.1) path.settings, congrArg (·.2.2.2.2) path.settings⟩

theorem Path.used {S : Set Label} (path : Path env S db db') :
    (∃ F ∈ ({S} : Set (Set Label)), Steps F db.toCore db'.toCore) ∧ Logs env db db' ∧
      db'.scheduling = db.scheduling ∧ db'.queues = db.queues ∧ db'.admissions = db.admissions :=
  ⟨⟨S, rfl, path.steps⟩, path.logs, path.kept⟩

theorem Registers.used {S : Set Label} (registers : Registers env S db db') :
    (∃ F ∈ ({S} : Set (Set Label)), Steps F db.toCore db'.toCore) ∧ Logs env db db' ∧
      db'.scheduling = db.scheduling ∧ db'.queues = db.queues :=
  ⟨⟨S, rfl, registers.trail.steps⟩, registers.trail.logs, congrArg (·.1) registers.settings,
    congrArg (·.2.1) registers.settings⟩

theorem Setting.used (setting : Setting env db db') :
    (∃ F ∈ ({idleLabels} : Set (Set Label)), Steps F db.toCore db'.toCore) ∧ Setting env db db' ∧
      db'.scheduling = db.scheduling ∧ db'.admissions = db.admissions := by
  refine ⟨⟨_, rfl, setting.configures.toCore ▸ .refl _⟩, setting, ?_⟩
  obtain ⟨_, _, _, _, rfl⟩ := setting.configures
  exact ⟨rfl, rfl⟩

theorem Assigns.used (assigns : Assigns db db') :
    (∃ F ∈ ({idleLabels} : Set (Set Label)), Steps F db.toCore db'.toCore) ∧ Logs env db db' ∧
      db'.admissions = db.admissions ∧ db'.scheduling.occurrences = db.scheduling.occurrences :=
  ⟨⟨_, rfl, assigns.toCore ▸ .refl _⟩, assigns.logs, assigns.keeps⟩

theorem Reschedules.used {S : Set (Uuid × CursorChange)} (path : Reschedules env.toSite env.now S db db') :
    (∃ F ∈ ({idleLabels} : Set (Set Label)), Steps F db.toCore db'.toCore) ∧ Logs env db db' ∧
      db'.queues = db.queues ∧ db'.admissions = db.admissions ∧
      db'.scheduling.occurrences = db.scheduling.occurrences := by
  refine ⟨⟨_, rfl, path.steps⟩, path.logs, ?_, ?_, path.occurrences⟩ <;>
    · obtain ⟨_, _, frame⟩ := path.frame
      rw [frame]

theorem Claims.used {queue : String} (claims : Claims env queue db db') :
    (∃ F ∈ ({starts, reclaims (lapsed env db.toCore)} : Set (Set Label)), Steps F db.toCore db'.toCore) ∧
      Asks env queue db db' ∧ db'.scheduling = db.scheduling ∧
      db'.queues = db.queues ∧ db'.admissions = db.admissions := by
  obtain ⟨wait, gated, gate, serves⟩ := claims
  obtain ⟨flows, frame⟩ := breakerGate_frame gate
  have core : gated.toCore = db.toCore := by rw [frame]
  have settings : gated.settings = db.settings := by rw [frame]; rfl
  have asks {S : Set Label} (path : Metered env S gated db') : Asks env queue db db' ∧
      db'.scheduling = db.scheduling ∧ db'.queues = db.queues ∧ db'.admissions = db.admissions := by
    obtain ⟨log, statements⟩ := path.logs
    have same := path.settings.trans settings
    exact ⟨⟨wait, gated, log, gate, statements⟩, congrArg (·.1) same, congrArg (·.2.1) same, congrArg (·.2.2.2.2) same⟩
  rw [← core]
  exact serves.elim (fun path => ⟨⟨_, .inl rfl, path.steps⟩, asks path⟩)
    fun path => ⟨⟨_, .inr rfl, path.steps⟩, asks path⟩

theorem Settles.used {own all : List Change} {jobId attemptId : Uuid}
    (settles : Settles env own jobId attemptId db db') (cancels : .cancelRunning ∈ all)
    (wider : own ⊆ all) :
    (∃ F ∈ ({changesOf jobId all ∪ dependents} : Set (Set Label)), Steps F db.toCore db'.toCore) ∧
      Logs env db db' ∧ db'.scheduling = db.scheduling ∧ db'.queues = db.queues ∧
      db'.admissions = db.admissions := by
  obtain ⟨-, rfl⟩ | ⟨job, -, k, member, ends⟩ := settles
  · exact (Path.refl _).used
  · refine (ends.path ?_).used
    unfold settling at member
    split_ifs at member
    · exact List.mem_singleton.mp member ▸ cancels
    · exact wider member

theorem Completes.used {jobId attemptId : Uuid} {specs : List Jsonb} {answer : SettleResult}
    (completes : Completes env jobId attemptId specs db db' answer) :
    (∃ F ∈ ({completions jobId db.nextUuid} : Set (Set Label)), Steps F db.toCore db'.toCore) ∧
      Logs env db db' ∧ db'.scheduling = db.scheduling ∧ db'.queues = db.queues ∧
      db'.admissions = db.admissions := by
  obtain ⟨-, rfl, -⟩ | ⟨job, -, run, -⟩ := completes
  · exact (Path.refl _).used
  · exact run.path.used

/-- A call that commits takes its transitions from one of its footprints, and acts as its kind. -/
theorem Command.exec_effect (run : command.exec env db = .ok db') :
    (∃ F ∈ command.footprints env db, Steps F db.toCore db'.toCore) ∧ command.acts env db db' ∧
      command.keeps db db' := by
  cases command with
  | enqueue => exact (map_snd_eq_ok.mp run).elim fun _ run => (enqueue_path run).used
  | tryEnqueue =>
    obtain ⟨answer, run⟩ := map_snd_eq_ok.mp run
    obtain rfl | ⟨answer, run⟩ := tryEnqueue_cases run
    · exact (Path.refl _).used
    · exact (enqueue_path run).used
  | enqueueMany => exact (map_snd_eq_ok.mp run).elim fun _ run => (enqueueMany_path run).used
  | reserveAdmission => exact (map_snd_eq_ok.mp run).elim fun _ run => (reserveAdmission_registers run).used
  | finishAdmission => exact (map_snd_eq_ok.mp run).elim fun _ run => (finishAdmission_registers run).used
  | cancelAdmission =>
    obtain ⟨answer, run⟩ := map_snd_eq_ok.mp run
    exact (cancelAdmission_registers run).used
  | claimJobs => exact (map_snd_eq_ok.mp run).elim fun _ run => (claimJobs_claims run).used
  | claimJobsWithPolicies => exact (map_snd_eq_ok.mp run).elim fun _ run => (claimJobsWithPolicies_claims run).used
  | heartbeat =>
    obtain ⟨answer, run⟩ := map_snd_eq_ok.mp run
    obtain rfl | ⟨-, path⟩ := heartbeat_path run
    · exact (Path.refl _).used
    · exact path.used
  | completeJob => exact (map_snd_eq_ok.mp run).elim fun _ run => (completeJob_completes run).used
  | completeJobWithPolicy => exact (map_snd_eq_ok.mp run).elim fun _ run => (completeJobWithPolicy_completes run).used
  | failJob => exact (map_snd_eq_ok.mp run).elim fun _ run => (failJob_settles run).used (by simp) (by simp)
  | snoozeJob => exact (map_snd_eq_ok.mp run).elim fun _ run => (snoozeJob_settles run).used (by simp) (by simp)
  | releaseJob => exact (map_snd_eq_ok.mp run).elim fun _ run => (releaseJob_settles run).used (by simp) (by simp)
  | cancelRunningJob => exact (map_snd_eq_ok.mp run).elim fun _ run => (cancelRunningJob_settles run).used (by simp) (by simp)
  | cancelJob => exact (map_snd_eq_ok.mp run).elim fun _ run => (cancelJob_path run).used
  | purgeQueued => exact (map_snd_eq_ok.mp run).elim fun _ run => (purgeQueued_path run).used
  | expireJob => exact (map_snd_eq_ok.mp run).elim fun _ run => (expireJob_path run).used
  | expireWorkerLeases => exact (map_snd_eq_ok.mp run).elim fun _ run => (expireWorkerLeases_path run).used
  | redriveJob => exact (redriveJob_path run).used
  | redriveFailed => exact (map_snd_eq_ok.mp run).elim fun _ run => (redriveFailed_path run).used
  | runNow => exact (runNow_path run).used
  | reprioritize => exact (reprioritize_path run).used
  | reapExpired => exact (map_snd_eq_ok.mp run).elim fun _ run => (reapExpired_path run).used
  | expireTtl => exact (map_snd_eq_ok.mp run).elim fun _ run => (expireTtl_path run).used
  | finalizeCancelStragglers => exact (map_snd_eq_ok.mp run).elim fun _ run => (finalizeCancelStragglers_path run).used
  | cancelDependents => exact (map_snd_eq_ok.mp run).elim fun _ run => (cancelDependents_path run).used
  | finalizeDepStragglers => exact (map_snd_eq_ok.mp run).elim fun _ run => (finalizeDepStragglers_path run).used
  | createWorkflow => exact (map_snd_eq_ok.mp run).elim fun _ run => (createWorkflow_path run).used
  | createContinuationWorkflow => exact (map_snd_eq_ok.mp run).elim fun _ run => (createContinuationWorkflow_path run).used
  | sealWorkflow => exact (map_snd_eq_ok.mp run).elim fun _ run => (sealWorkflow_path run).used
  | cancelWorkflow => exact (map_snd_eq_ok.mp run).elim fun _ run => (cancelWorkflow_path run).used
  | advanceWorkflowCancellations => exact (map_snd_eq_ok.mp run).elim fun _ run => (advanceWorkflowCancellations_path run).used
  | finalizeWorkflows => exact (map_snd_eq_ok.mp run).elim fun _ run => (finalizeWorkflows_path run).used
  | tick => exact (map_snd_eq_ok.mp run).elim fun _ run => (tick_path run).used
  | janitor =>
    obtain ⟨answer, run⟩ := map_snd_eq_ok.mp run
    obtain ⟨mid, registers, -, rfl⟩ := janitor_cases run
    have pruned : Trail env deletions mid (pruneDecisions env (pruneOccurrences env mid)) :=
      .aside rfl rfl
    obtain ⟨steps, logs⟩ := (registers.trail.trans pruned).used
    exact ⟨steps, logs, congrArg (·.1.schedules) registers.settings, congrArg (·.2.1) registers.settings⟩
  | ensureQueue => exact (map_snd_eq_ok.mp run).elim fun _ run => (ensureQueue_setting run).used
  | pauseQueue => exact (map_snd_eq_ok.mp run).elim fun _ run => (pauseQueue_setting run).used
  | resumeQueue => exact (map_snd_eq_ok.mp run).elim fun _ run => (resumeQueue_setting run).used
  | setConcurrencyLimit => exact (map_snd_eq_ok.mp run).elim fun _ run => (setConcurrencyLimit_setting run).used
  | setFlowLimit => exact (map_snd_eq_ok.mp run).elim fun _ run => (setFlowLimit_setting run).used
  | setBreakerConfig => exact (map_snd_eq_ok.mp run).elim fun _ run => (setBreakerConfig_setting run).used
  | setBreakerRate => exact (setBreakerRate_setting run).used
  | setBreakerLatency => exact (setBreakerLatency_setting run).used
  | tripBreaker => exact (tripBreaker_setting run).used
  | forceCloseBreaker => exact (forceCloseBreaker_setting run).used
  | setPriorityAging => exact (map_snd_eq_ok.mp run).elim fun _ run => (setPriorityAging_setting run).used
  | bindQueueAdmissionOwner => exact (bindQueueAdmissionOwner_assigns run).used
  | adoptQueueAdmissionOwner => exact (adoptQueueAdmissionOwner_assigns run).used
  | rotateQueueAdmissionOwner => exact (rotateQueueAdmissionOwner_assigns run).used
  | putSchedule => exact (map_snd_eq_ok.mp run).elim fun _ run => (putSchedule_path run).used
  | putManagedSchedule => exact (map_snd_eq_ok.mp run).elim fun _ run => (putManagedSchedule_path run).used
  | setScheduleState => exact (map_snd_eq_ok.mp run).elim fun _ run => (setScheduleState_path run).used
  | retireSchedule => exact (map_snd_eq_ok.mp run).elim fun _ run => (retireSchedule_path run).used
  | setScheduleSmear => exact (setScheduleSmear_path run).used
  | claimSchedules => exact (map_snd_eq_ok.mp run).elim fun _ run => (claimSchedules_path run).used
  | fireSchedule =>
    obtain ⟨answer, run⟩ := map_snd_eq_ok.mp run
    obtain ⟨steps, logs⟩ := (fireSchedule_trail run).used
    exact ⟨steps, logs, (fireSchedule_keeps run).1⟩
  | scheduleError => exact (map_snd_eq_ok.mp run).elim fun _ run => (scheduleError_path run).used

theorem Asks.statements {queue : String} (asks : Asks env queue db db') : ∃ log, Statements env log db db' := by
  obtain ⟨wait, gated, log, gate, statements⟩ := asks
  have first : Statements env [] db gated := .single (.gate gate)
  exact ⟨_, first.trans (statements.mono .body)⟩

/-- A call makes statements or configures. -/
theorem Command.exec_made (run : command.exec env db = .ok db') :
    (∃ log, Statements env log db db') ∨ Setting env db db' := by
  have acts := (Command.exec_effect run).2.1
  cases command <;> first
    | exact .inl (Asks.statements acts)
    | exact .inl (Logs.statements acts)
    | exact .inr acts

theorem Command.exec_steps (run : command.exec env db = .ok db') :
    ∃ F ∈ command.footprints env db, Steps F db.toCore db'.toCore :=
  (Command.exec_effect run).1

end Taskq
