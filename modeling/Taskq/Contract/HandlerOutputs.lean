import Taskq.Contract.Handling
import Taskq.Contract.Heartbeats
import Taskq.Contract.SingleSettlement
import Taskq.Lifecycle.Prefixes

/-! What a handler may say so that the worker goes on: progress and results that the database stores within its limits,
and texts that it takes. -/
namespace Taskq
namespace Worker
open Relational

section Task

/-- The end of a task that does not fail its worker. -/
def TaskEnd.harmless : TaskEnd → Bool
  | .report r => !r.fatal
  | .cancelled => true
  | .raised => false

/-- The end of a handler is settled, without followups. -/
def HandlerEnd.settles (ended : HandlerEnd) : Bool :=
  match normalizeHandlerResult ended with
  | .intent i => i ≠ .complete true
  | .invalidResult => true
  | .invalidFollowup | .raises => false

/-- A verb that gives the attempt back. -/
def Verb.back (v : Verb) : Prop := v = .fail ∨ v = .release

/-- The supervision of a job that is not going to fail its worker. -/
structure Unharmed (t : JobTask) : Prop where
  control : ∀ c, t.control = some c → c.runtimeFailed = false
  gracing : ∀ e, t.stage = .gracing e → e.settles = true
  settling : ∀ s, t.stage = .settling s → s.fallback = none ∧
    (s.phase = .calling ∨ s.phase = .entering ∧ s.purpose = .external ∧ s.loop.command.back)
  harmless : ∀ e, t.stage = .closing e ∨ t.stage = .ended e → e.harmless = true

/-- The settlement that a task opens after its handler ended so, if it did. -/
def Settling.Opens (o : Options) (ended : Option HandlerEnd) (t : JobTask) (s : Settling) : Prop :=
  match s.purpose with
  | .noHandler | .unsupportedPolicy | .prestart => s.loop.command = .release
  | .invalidPayload => s.loop.command = .fail
  | .external => s.loop.command.back
  | .handled => ∃ e c, ended = some e ∧ t.control = some c ∧ resolveIntent c e = .settle s.intent ∧
      s.loop.command = intentVerb o (some c) s.intent
  | .rejected => False

/-- The task has not called a settlement yet. -/
def Stage.unsettled : Stage → Bool
  | .settling s => s.phase = .entering
  | .closing _ | .ended _ => false
  | _ => true

/-- The settlement is over. -/
def Stage.over : Stage → Bool
  | .closing _ | .ended _ => true
  | _ => false

/-- A task that has left its stage, without harm. -/
structure Leaves (o : Options) (ended : Option HandlerEnd) (t : JobTask) : Prop extends Unharmed t where
  awaits : (∀ e, t.stage = .gracing e → ended = some e) ∧ (t.stage = .draining → ended = some .cancelled)
  opens : ∀ s, t.stage = .settling s → s.Opens o ended t

/-- The events that do not harm a task in this state. -/
def JobEvent.Harmless (t : JobTask) : JobEvent → Prop
  | .start .raises => False
  | .handlerEnded ended => t.stage = .handling → ended.settles = true
  | .answered result => ∀ s, t.stage = .settling s → result.success = true ∧ s.loop.command.outcomes.contains result
  | .failed _ _ => False
  | .lose _ runtimeFailed => runtimeFailed = false
  | _ => True

section Functions

variable {o : Options} {t t' : JobTask} {s : Settling} {c : RunControl} {r : JobRunReport} {event : JobEvent}
  {ended : Option HandlerEnd} {e : TaskEnd} {stopping deadlineReached : Bool} {now : ℚ}

/-- Nothing has failed in the job's control. -/
def Clear (t : JobTask) : Prop := ∀ c, t.control = some c → c.runtimeFailed = false

theorem Clear.withControl (clear : Clear t) {f : RunControl → RunControl}
    (same : ∀ c, (f c).runtimeFailed = c.runtimeFailed) : Clear (t.withControl f) := by
  intro c some'
  obtain ⟨before, there, rfl⟩ := Option.map_eq_some_iff.mp some'
  exact (same before).trans (clear before there)

theorem Unharmed.of_stage (clear : Clear t') (stage : t'.stage = t.stage) (unharmed : Unharmed t) : Unharmed t' :=
  ⟨clear, fun e here => unharmed.gracing e (stage ▸ here), fun s here => unharmed.settling s (stage ▸ here),
    fun e here => unharmed.harmless e (stage ▸ here)⟩

theorem Leaves.over (clear : Clear t) (stage : t.stage = .closing e ∨ t.stage = .ended e) (harmless : e.harmless = true) :
    Leaves o ended t := by
  have not {x : Stage} (here : t.stage = x) : x = .closing e ∨ x = .ended e := here ▸ stage
  refine ⟨⟨clear, fun _ here => ?_, fun _ here => ?_, fun e' here => ?_⟩, ⟨fun _ here => ?_, fun here => ?_⟩,
    fun _ here => ?_⟩
  · obtain wrong | wrong := not here <;> cases wrong
  · obtain wrong | wrong := not here <;> cases wrong
  · obtain stage | stage := stage <;> obtain here | here := here <;> cases here.symm.trans stage <;> exact harmless
  · obtain wrong | wrong := not here <;> cases wrong
  · obtain wrong | wrong := not here <;> cases wrong
  · obtain wrong | wrong := not here <;> cases wrong

theorem JobTask.finish_leaves (clear : Clear t) (harmless : e.harmless = true) : Leaves o ended (t.finish e) :=
  .over clear (.inr rfl) harmless

theorem JobTask.close_leaves (clear : Clear t) (harmless : e.harmless = true) : Leaves o ended (t.close e) :=
  .over (clear.withControl fun _ => rfl) (.inl rfl) harmless

theorem JobTask.settled_leaves (clear : Clear t) (harmless : r.fatal = false) : Leaves o ended (t.settled s r) := by
  have report {r : JobRunReport} (harmless : r.fatal = false) : (TaskEnd.report r).harmless = true := by
    simp [TaskEnd.harmless, harmless]
  unfold settled
  split
  · refine finish_leaves clear (report ?_)
    split_ifs <;> exact harmless
  · refine finish_leaves (by exact clear) (report ?_)
    split_ifs <;> exact harmless
  · exact finish_leaves clear (report harmless)
  · exact finish_leaves clear rfl
  · exact close_leaves clear (report harmless)
  · exact close_leaves clear (report harmless)
  · exact close_leaves clear rfl

theorem Settling.conclude_fatal (direct : s.fallback = none) : (s.conclude r).fatal = r.fatal := by
  unfold conclude
  simp only [direct]
  split_ifs <;> rfl

theorem ownershipLostReport_fatal (jobId : Uuid) : (ownershipLostReport jobId c).fatal = c.runtimeFailed := by
  unfold ownershipLostReport
  cases c.runtimeFailed <;> rfl

/-- A settlement that calls. -/
theorem Leaves.calling (clear : Clear t) (stage : t.stage = .settling s) (direct : s.fallback = none)
    (phase : s.phase = .calling ∨ s.phase = .entering ∧ s.purpose = .external ∧ s.loop.command.back)
    (opens : s.Opens o ended t) : Leaves o ended t := by
  refine ⟨⟨clear, fun _ here => (nomatch stage.symm.trans here), fun s' here => ?_, fun _ here => ?_⟩,
    ⟨fun _ here => (nomatch stage.symm.trans here), fun here => (nomatch stage.symm.trans here)⟩, fun s' here => ?_⟩
  · cases stage.symm.trans here
    exact ⟨direct, phase⟩
  · obtain here | here := here <;> cases stage.symm.trans here
  · cases stage.symm.trans here
    exact opens

theorem JobTask.attempt_leaves (clear : Clear t) (direct : s.fallback = none) (opens : s.Opens o ended t) :
    Leaves o ended (t.attempt s) := by
  unfold attempt
  dsimp only
  split
  · rename_i c there
    split_ifs
    · refine settled_leaves clear ?_
      rw [Settling.conclude_fatal direct, ownershipLostReport_fatal]
      exact clear c there
    · exact .calling (by exact clear) rfl direct (.inl rfl) opens
  · exact .calling (by exact clear) rfl direct (.inl rfl) opens

/-- Start a settlement that fits its purpose. -/
theorem JobTask.settle_leaves {purpose : Purpose} {intent : Option Intent} {reason : Option CancellationReason}
    {command : Verb} (clear : Clear t) (back : purpose = .external → command.back)
    (opens : ∀ s : Settling, s.purpose = purpose → s.intent = intent → s.loop.command = command →
      s.Opens o ended (t.withControl fun c => { c with settling := true })) :
    Leaves o ended (t.settle purpose intent reason command none now) := by
  have clear' : Clear (t.withControl fun c => { c with settling := true }) := clear.withControl fun _ => rfl
  unfold settle
  dsimp only
  split_ifs with external
  · exact .calling (by exact clear') rfl rfl (.inr ⟨rfl, external, back external⟩) (opens _ rfl rfl rfl)
  · exact attempt_leaves clear' rfl (opens _ rfl rfl rfl)

theorem Leaves.waiting (clear : Clear t) (stage : t.stage = .handling ∨ t.stage = .dropping) : Leaves o ended t := by
  have not {x : Stage} (here : t.stage = x) : x = .handling ∨ x = .dropping := here ▸ stage
  refine ⟨⟨clear, fun _ here => ?_, fun _ here => ?_, fun _ here => ?_⟩, ⟨fun _ here => ?_, fun here => ?_⟩,
    fun _ here => ?_⟩
  · obtain wrong | wrong := not here <;> cases wrong
  · obtain wrong | wrong := not here <;> cases wrong
  · obtain here | here := here <;> obtain wrong | wrong := not here <;> cases wrong
  · obtain wrong | wrong := not here <;> cases wrong
  · obtain wrong | wrong := not here <;> cases wrong
  · obtain wrong | wrong := not here <;> cases wrong

variable {e : HandlerEnd}

theorem settles_normal (settles : e.settles = true) :
    (∃ i, normalizeHandlerResult e = .intent i) ∨ normalizeHandlerResult e = .invalidResult := by
  unfold HandlerEnd.settles at settles
  split at settles
  · rename_i i normal
    exact .inl ⟨i, normal⟩
  · rename_i normal
    exact .inr normal
  · cases settles
  · cases settles

theorem resolveIntent_settles (settles : e.settles = true) : ∃ intent, resolveIntent c e = .settle intent := by
  obtain ⟨i, normal⟩ | normal := settles_normal settles
  · exact ⟨_, resolveIntent_of_normal (.inl normal)⟩
  · exact ⟨_, resolveIntent_of_normal (.inr ⟨normal, rfl⟩)⟩

theorem JobTask.afterGrace_leaves (there : t.control = some c) (clear : Clear t) (settles : e.settles = true)
    (same : ended = some e) : Leaves o ended (t.afterGrace o c e now) := by
  unfold afterGrace
  split_ifs
  · exact .waiting (by exact clear) (.inr rfl)
  · refine settle_leaves clear (fun _ => intentVerb_none o _) fun s purpose _ command => ?_
    unfold Settling.Opens
    simp only [purpose, command]
    exact intentVerb_none o _
  · obtain ⟨intent, resolved⟩ := resolveIntent_settles (c := c) settles
    simp only [resolved]
    refine settle_leaves clear (fun wrong => nomatch wrong) fun s purpose intent' command => ?_
    unfold Settling.Opens
    simp only [purpose, intent', command]
    refine ⟨e, { c with settling := true }, same, ?_, resolved, ?_⟩
    · simp [withControl, there]
    · cases intent <;> rfl

theorem JobTask.afterHandler_leaves (there : t.control = some c) (clear : Clear t) (settles : e.settles = true)
    (same : ended = some e) : Leaves o ended (t.afterHandler o c e now) := by
  unfold afterHandler
  split_ifs
  · refine ⟨⟨by exact clear, fun e' here => ?_, fun _ here => (nomatch here), fun _ here => ?_⟩,
      ⟨fun e' here => ?_, fun here => (nomatch here)⟩, fun _ here => (nomatch here)⟩
    · cases here
      exact settles
    · obtain here | here := here <;> cases here
    · cases here
      exact same
  · exact afterGrace_leaves there clear settles same

theorem markBlockingUnsafe_runtimeFailed : (t.markBlockingUnsafe c).runtimeFailed = c.runtimeFailed := by
  unfold JobTask.markBlockingUnsafe
  split_ifs <;> rfl

theorem JobTask.cancelHandling_leaves (there : t.control = some c) (clear : Clear t) (same : ended = some .cancelled) :
    Leaves o ended (t.cancelHandling o c now) := by
  have calm := clear c there
  unfold cancelHandling
  split_ifs
  · refine ⟨⟨fun c' here => ?_, fun _ here => (nomatch here), fun _ here => (nomatch here), fun _ here => ?_⟩,
      ⟨fun _ here => (nomatch here), fun _ => same⟩, fun _ here => (nomatch here)⟩
    · cases here
      split_ifs
      · exact markBlockingUnsafe_runtimeFailed.trans calm
      · exact calm
    · obtain here | here := here <;> cases here
  · exact afterHandler_leaves there clear rfl same

theorem Clear.enforceShutdownDeadline (clear : Clear t) : Clear t.enforceShutdownDeadline := by
  refine clear.withControl fun c => ?_
  dsimp only
  split_ifs
  · exact markBlockingUnsafe_runtimeFailed
  · rfl

theorem Clear.loseOwnership (clear : Clear t) : Clear (t.loseOwnership false) := by
  refine clear.withControl fun c => ?_
  have calm : (c.runtimeFailed || false) = c.runtimeFailed := Bool.or_false _
  dsimp only
  split_ifs
  · exact calm
  · exact calm
  · exact markBlockingUnsafe_runtimeFailed.trans calm

theorem JobTask.start_leaves {preparation : Preparation} (clear : Clear t) (sound : preparation ≠ .raises) :
    Leaves o ended (t.start stopping deadlineReached now preparation) := by
  unfold start
  cases preparation with
  | unsupportedPolicy =>
    refine settle_leaves clear (fun wrong => nomatch wrong) fun s purpose _ command => ?_
    simpa only [Settling.Opens, purpose] using command
  | noHandler =>
    refine settle_leaves clear (fun wrong => nomatch wrong) fun s purpose _ command => ?_
    simpa only [Settling.Opens, purpose] using command
  | invalidPayload =>
    refine settle_leaves clear (fun wrong => nomatch wrong) fun s purpose _ command => ?_
    simpa only [Settling.Opens, purpose] using command
  | raises => exact absurd rfl sound
  | ready isSync =>
    have fresh {c : RunControl} (calm : c.runtimeFailed = false) :
        Clear { t with control := some c, stage := .handling } := by
      intro c' there
      cases there
      exact calm
    dsimp only
    split_ifs
    · exact .waiting (fresh rfl).enforceShutdownDeadline (.inl rfl)
    · exact .waiting (fresh rfl).enforceShutdownDeadline (.inl rfl)
    · exact .waiting (fresh rfl) (.inl rfl)
    · exact .waiting (fresh rfl) (.inl rfl)

/-- A step that stays, or leaves its stage without harm, and not one in which the job has been settled. -/
def Proceeds (o : Options) (ended : Option HandlerEnd) (t t' : JobTask) : Prop :=
  t'.stage = t.stage ∧ t'.sent = t.sent ∧ Clear t' ∨
    Leaves o ended t' ∧ (t.stage.unsettled = true ∨ t'.stage.over = true)

theorem Proceeds.leave (leaves : Leaves o ended t') (unsettled : t.stage.unsettled = true) : Proceeds o ended t t' :=
  .inr ⟨leaves, .inl unsettled⟩

theorem Proceeds.finish {t₁ : JobTask} {e : TaskEnd} (clear : Clear t₁) (harmless : e.harmless = true) :
    Proceeds o ended t (t₁.finish e) := .inr ⟨JobTask.finish_leaves clear harmless, .inr rfl⟩

theorem Proceeds.close {t₁ : JobTask} {e : TaskEnd} (clear : Clear t₁) (harmless : e.harmless = true) :
    Proceeds o ended t (t₁.close e) := .inr ⟨JobTask.close_leaves clear harmless, .inr rfl⟩

/-- What a report needs to be harmless. -/
theorem JobTask.answered_leaves {result : SettleOutcome} (clear : Clear t) (direct : s.fallback = none)
    (success : result.success = true) (named : s.loop.command.outcomes.contains result = true) :
    Leaves o ended (t.settled s (s.conclude (s.loop.answered t.jobId result))) := by
  refine settled_leaves clear ?_
  rw [Settling.conclude_fatal direct]
  unfold Attempting.answered
  rw [if_pos named]
  cases result with
  | ok => rfl
  | retryScheduled => rfl
  | dead => rfl
  | alreadySettled => cases success
  | settleConflict => cases success
  | lost => cases success

theorem JobTask.settled_stage_over : (t.settled s r).stage.over = true := by
  unfold settled
  split <;> rfl

theorem Unharmed.cancelled (unharmed : Unharmed t) (step : t.cancelled o now = some t')
    (awaits : t.stage = .handling → ended = some .cancelled) : Proceeds o ended t t' := by
  unfold JobTask.cancelled at step
  split at step
  · rename_i created
    cases step
    refine .leave ⟨⟨unharmed.control, fun _ here => (nomatch here), fun _ here => (nomatch here), fun _ here => ?_⟩,
      ⟨fun _ here => (nomatch here), fun here => (nomatch here)⟩, fun _ here => (nomatch here)⟩ (by rw [created]; rfl)
    obtain here | here := here <;> cases here
  · rename_i handling
    obtain ⟨c, there, rfl⟩ := Option.map_eq_some_iff.mp step
    exact .leave (JobTask.cancelHandling_leaves there unharmed.control (awaits handling)) (by rw [handling]; rfl)
  · cases step
    exact .finish unharmed.control rfl
  · cases step
    exact .finish unharmed.control rfl
  · cases step
    exact .finish unharmed.control rfl
  · cases step
    exact .finish unharmed.control rfl
  · split at step
    · cases step
      exact .inl ⟨rfl, rfl, unharmed.control⟩
    · cases step
      exact .close unharmed.control rfl
    · cases step
      exact .close unharmed.control rfl
    · cases step
      exact .finish unharmed.control rfl
  · cases step
  · cases step

theorem Unharmed.resumed (unharmed : Unharmed t) (step : t.resume o now = some t')
    (gracing : ∀ e, t.stage = .gracing e → ended = some e) (draining : t.stage = .draining → ended = some .cancelled) :
    Proceeds o ended t t' := by
  unfold JobTask.resume at step
  split at step
  · rename_i c stage there
    split_ifs at step
    cases step
    exact .leave (JobTask.afterHandler_leaves there unharmed.control rfl (draining stage)) (by rw [stage]; rfl)
  · rename_i e c stage there
    cases step
    exact .leave (JobTask.afterGrace_leaves there unharmed.control (unharmed.gracing e stage) (gracing e stage))
      (by rw [stage]; rfl)
  · rename_i c stage there
    cases step
    refine .finish unharmed.control ?_
    simp [TaskEnd.harmless, ownershipLostReport_fatal, unharmed.control c there]
  · rename_i e stage
    cases step
    exact .finish unharmed.control (unharmed.harmless e (.inl stage))
  · rename_i s stage
    split_ifs at step with entering
    cases step
    obtain ⟨direct, calling | ⟨-, external, back⟩⟩ := unharmed.settling s stage
    · exact nomatch entering.symm.trans calling
    · refine .leave (JobTask.attempt_leaves unharmed.control direct ?_) (by simp [stage, Stage.unsettled, entering])
      simpa only [Settling.Opens, external] using back
  · cases step

/-- The end of the handler that a task has seen, after the event. -/
structure Sees (ended : Option HandlerEnd) (t : JobTask) (event : JobEvent) : Prop where
  heard : ∀ e, event = .handlerEnded e → t.stage = .handling → ended = some e
  interrupted : event = .cancel → t.stage = .handling → ended = some .cancelled
  gracing : ∀ e, t.stage = .gracing e → ended = some e
  draining : t.stage = .draining → ended = some .cancelled

/-- A harmless event does no harm. -/
theorem Unharmed.step (unharmed : Unharmed t) (harmless : event.Harmless t) (sees : Sees ended t event)
    (step : t.step o stopping deadlineReached now event = some t') : Proceeds o ended t t' := by
  have stays {t' : JobTask} (stage : t'.stage = t.stage) (sent : t'.sent = t.sent) (clear : Clear t') :
      Proceeds o ended t t' := .inl ⟨stage, sent, clear⟩
  unfold JobTask.step at step
  cases event with
  | start preparation =>
    dsimp only at step
    split at step
    · rename_i created
      have unsettled : t.stage.unsettled = true := by rw [created]; rfl
      cases step
      split_ifs
      · refine .leave (JobTask.settle_leaves (by exact unharmed.control) (fun wrong => nomatch wrong)
          fun s purpose _ command => ?_) unsettled
        simpa only [Settling.Opens, purpose] using command
      · refine .leave (JobTask.start_leaves unharmed.control fun raises => ?_) unsettled
        subst raises
        exact harmless
    · cases step
  | recover =>
    dsimp only at step
    split at step
    · rename_i early
      split_ifs at step
      cases step
      refine .leave ⟨⟨unharmed.control, fun _ here => (nomatch here), fun _ here => (nomatch here), fun _ here => ?_⟩,
        ⟨fun _ here => (nomatch here), fun here => (nomatch here)⟩, fun _ here => (nomatch here)⟩ (by rw [early]; rfl)
      obtain here | here := here <;> cases here
    · cases step
  | handlerEnded e =>
    dsimp only at step
    split at step
    · rename_i c handling there
      have unsettled : t.stage.unsettled = true := by rw [handling]; rfl
      have heard := sees.heard e rfl handling
      cases step
      split_ifs with cancelled
      · subst cancelled
        exact .leave (JobTask.cancelHandling_leaves there (by exact unharmed.control) heard) unsettled
      · exact .leave (JobTask.afterHandler_leaves there (by exact unharmed.control) (harmless handling) heard) unsettled
    · cases step
    · cases step
    · cases step
    · cases step
      exact stays rfl rfl unharmed.control
  | awaited => exact unharmed.resumed step sees.gracing sees.draining
  | answered result =>
    dsimp only at step
    split at step
    · rename_i s stage
      split_ifs at step
      cases step
      obtain ⟨success, named⟩ := harmless s stage
      exact .inr ⟨JobTask.answered_leaves unharmed.control (unharmed.settling s stage).1 success named,
        .inr JobTask.settled_stage_over⟩
    · cases step
  | failed => exact harmless.elim
  | wake =>
    dsimp only at step
    split at step
    · rename_i s stage
      split at step
      · rename_i sleeping
        obtain ⟨-, calling | ⟨entering, -⟩⟩ := unharmed.settling s stage
        · exact nomatch sleeping.symm.trans calling
        · exact nomatch sleeping.symm.trans entering
      · cases step
    · cases step
  | cancel => exact unharmed.cancelled step (sees.interrupted rfl)
  | lose confirmed runtimeFailed =>
    dsimp only at step
    split_ifs at step
    cases step
    have calm : runtimeFailed = false := harmless
    subst calm
    exact stays rfl rfl (Clear.loseOwnership unharmed.control)
  | operatorCancel =>
    dsimp only at step
    split_ifs at step
    cases step
    exact stays rfl rfl (Clear.withControl unharmed.control fun _ => rfl)
  | graceExpired =>
    dsimp only at step
    split_ifs at step
    cases step
    refine stays rfl rfl (Clear.withControl unharmed.control fun c => ?_)
    split_ifs
    · exact markBlockingUnsafe_runtimeFailed
    · rfl
  | blocking unfinished =>
    cases step
    exact stays rfl rfl unharmed.control
  | softStop =>
    cases step
    exact stays rfl rfl (Clear.withControl unharmed.control fun _ => rfl)
  | deadline =>
    cases step
    exact stays rfl rfl (Clear.enforceShutdownDeadline unharmed.control)

end Functions

end Task

section Answers

variable {env : Env} {db db' : Db} {c : Taskq.Settlement} {job : Job} {answer : SettleResult}

theorem settleSucceeded_outcome {jobId attemptId : Uuid} {worker : Option String} {result stats : Option Jsonb}
    {specs : List Jsonb} (run : settleSucceeded env jobId attemptId worker result stats specs job db = .ok (answer, db')) :
    answer.outcome = .ok := by
  simp only [settleSucceeded, seq_eq_ok] at run
  obtain ⟨_, -, _, -, _, -, _, -, same⟩ := run
  cases same
  rfl

theorem settleCancelled_outcome {jobId attemptId : Uuid} {worker message : Option String} {row : JobRow → JobRow}
    {ledger : Attempt → Attempt}
    (run : settleCancelled env jobId attemptId worker message row ledger job db = .ok (answer, db')) :
    answer.outcome = .ok := by
  simp only [settleCancelled, seq_eq_ok] at run
  obtain ⟨_, -, _, -, same⟩ := run
  cases same
  rfl

/-- A settlement of an attempt that runs its job settles it, with an outcome that the worker knows. -/
theorem Settlement.settles (run : c.run env db = .ok (answer, db'))
    (held : runningJob db.toCore c.jobId c.attemptId = some job) :
    answer.outcome.success = true ∧ (verbOf c.verb).outcomes.contains answer.outcome = true := by
  have fine (v : Verb) (ok : answer.outcome = .ok) :
      answer.outcome.success = true ∧ v.outcomes.contains answer.outcome = true := by
    rw [ok]
    cases v <;> exact ⟨rfl, rfl⟩
  obtain ⟨jobId, attemptId, worker, verb⟩ := c
  obtain ⟨stored, status, current⟩ : db.jobs.get? jobId = some job ∧ job.status = .running ∧
      job.currentAttemptId = some attemptId := by
    obtain ⟨stored, runs⟩ := Option.filter_eq_some_iff.mp held
    simpa [stored] using runs
  cases verb with
  | complete result stats followups =>
    simp only [Taskq.Settlement.run, completeJob, seq_eq_ok, stored] at run
    obtain ⟨_, -, run⟩ := run
    rw [if_neg (by simp [status, current])] at run
    simp only [seq_eq_ok] at run
    obtain ⟨_, -, _, -, _, -, run⟩ := run
    exact fine _ (settleSucceeded_outcome run)
  | completeWithPolicy result stats followups policyHash =>
    simp only [Taskq.Settlement.run, completeJobWithPolicy, seq_eq_ok, stored] at run
    obtain ⟨_, -, run⟩ := run
    rw [if_neg (by simp [status, current])] at run
    simp only [seq_eq_ok] at run
    obtain ⟨_, -, _, -, _, -, _, -, run⟩ := run
    exact fine _ (settleSucceeded_outcome run)
  | fail error retryable retryAfter progress stats =>
    simp only [Taskq.Settlement.run, failJob, seq_eq_ok] at run held
    obtain ⟨_, -, _, -, run⟩ := run
    rw [held] at run
    dsimp only at run
    split at run
    · exact fine _ (settleCancelled_outcome run)
    · simp only [seq_eq_ok] at run
      obtain ⟨_, -, run⟩ := run
      split at run
      · simp only [scheduleRetry, seq_eq_ok] at run
        obtain ⟨_, -, _, -, _, -, same⟩ := run
        cases same
        exact ⟨rfl, rfl⟩
      · simp only [buryJob, seq_eq_ok] at run
        obtain ⟨_, -, _, -, same⟩ := run
        cases same
        exact ⟨rfl, rfl⟩
  | snooze delay reason progress =>
    simp only [Taskq.Settlement.run, snoozeJob, seq_eq_ok] at run held
    obtain ⟨_, -, _, -, _, -, run⟩ := run
    rw [held] at run
    simp only [seq_eq_ok] at run
    obtain ⟨_, -, run⟩ := run
    split at run
    · simp only [seq_eq_ok] at run
      obtain ⟨_, -, same⟩ := run
      cases same
      exact fine _ rfl
    · simp only [seq_eq_ok] at run
      obtain ⟨_, -, same⟩ := run
      cases same
      exact fine _ rfl
  | release cause delay progress =>
    simp only [Taskq.Settlement.run, releaseJob, seq_eq_ok] at run held
    obtain ⟨_, -, _, -, run⟩ := run
    rw [held] at run
    dsimp only at run
    split at run
    · exact fine _ (settleCancelled_outcome run)
    · simp only [seq_eq_ok] at run
      obtain ⟨_, -, _, -, same⟩ := run
      cases same
      exact fine _ rfl
  | cancelRunning reason =>
    simp only [Taskq.Settlement.run, cancelRunningJob] at run held
    rw [held] at run
    exact fine _ (settleCancelled_outcome run)

end Answers

section Stores

/-- The database stores the value, within a limit on the length of its text. -/
def stores (limit : ℕ) (value : PyValue) : Bool :=
  match jsonParam value with
  | .ok d => withinBytes limit d
  | .error _ => false

/-- The database takes the text. -/
def storesText (s : PyStr) : Bool := (textParam s).isSome

def HandlerResult.stores : HandlerResult → Bool
  | .complete result => Worker.stores 8192 result
  | .snooze _ progress reason => Worker.stores 2048 progress && reason.all storesText
  | .cancel reason => storesText reason
  | .retry _ error progress => error.all storesText && Worker.stores 2048 progress
  | .nonRetryable error progress => storesText error && Worker.stores 2048 progress

def HandlerOutput.stores : HandlerOutput → Bool
  | .returned result => result.stores
  | .invalid error | .raised error => storesText error
  | .escapes => false
  | .taskCancelled _ | .cancelled => true

/-- The database stores what is said. -/
def Said.stores : Said → Bool
  | .quiet => true
  | .invalidPayload error => storesText error
  | .startRaises => false
  | .checkpoint progress => Worker.stores 2048 progress
  | .output said => said.stores

/-- The parameters of a call pass the database and the checks of the SQL function. -/
def Operation.Passes (worker : String) (a : Assignment) (operation : Operation) : Prop :=
  ∃ verb, operation.verb = .ok verb ∧ (Settlement.mk a.jobId a.attemptId (some worker) verb).fits = true

/-- What a call carries is stored. -/
def Operation.stores : Operation → Bool
  | .complete result _ => Worker.stores 8192 result
  | .fail error _ _ progress => storesText error && Worker.stores 2048 progress
  | .snooze _ reason progress => Worker.stores 2048 progress && reason.all storesText
  | .release cause delaySeconds progress =>
    releaseCauses.contains cause && (0 ≤ delaySeconds ∧ delaySeconds ≤ 86400) && Worker.stores 2048 progress
  | .cancelRunning reason => storesText reason

variable {limit : ℕ} {value progress : PyValue} {text : PyStr} {worker : String} {a : Assignment}
  {operation : Operation} {output : HandlerOutput} {result : HandlerResult}

theorem stores_iff : stores limit value = true ↔ ∃ d, jsonParam value = .ok d ∧ withinBytes limit d = true := by
  unfold stores
  cases jsonParam value with
  | ok d => simp
  | error fault => simp

theorem textArgument_of_stores (taken : storesText text = true) : ∃ s, textArgument text = .ok (some s) := by
  obtain ⟨s, some'⟩ := Option.isSome_iff_exists.mp taken
  exact ⟨s, by simp [textArgument, some']⟩

/-- A result's own progress, or else the context's. -/
theorem stores_orElse (own : stores limit value = true) (other : stores limit progress = true) :
    stores limit (value.orElse progress) = true := by
  unfold PyValue.orElse
  split
  · exact other
  · exact other
  · exact own

theorem storesText_eq (s : PyStr) : storesText s = !s.any fun c => surrogate c || c.val = 0 := by
  unfold storesText textParam
  generalize (s.any fun c => surrogate c || c.val = 0) = bad
  cases bad <;> rfl

theorem storesText_append {s t : PyStr} (first : storesText s = true) (second : storesText t = true) :
    storesText (s ++ t) = true := by
  rw [storesText_eq] at *
  rw [List.any_append, Bool.not_or, first, second]
  rfl

theorem Operation.verb_named {verb : SettleVerb} (cast : operation.verb = .ok verb) :
    verbOf verb = operation.command := by
  cases operation with
  | complete result policyHash =>
    simp only [Operation.verb, seq_eq_ok, return_eq_ok] at cast
    obtain ⟨_, -, rfl⟩ := cast
    cases policyHash <;> rfl
  | fail error retryable retryAfterSeconds progress =>
    simp only [Operation.verb, seq_eq_ok, return_eq_ok] at cast
    obtain ⟨_, -, _, -, rfl⟩ := cast
    rfl
  | snooze delaySeconds reason progress =>
    simp only [Operation.verb, seq_eq_ok, return_eq_ok] at cast
    obtain ⟨_, -, _, -, rfl⟩ := cast
    rfl
  | release cause delaySeconds progress =>
    simp only [Operation.verb, seq_eq_ok, return_eq_ok] at cast
    obtain ⟨_, -, rfl⟩ := cast
    rfl
  | cancelRunning reason =>
    simp only [Operation.verb, seq_eq_ok, return_eq_ok] at cast
    obtain ⟨_, -, rfl⟩ := cast
    rfl

/-- A call that carries nothing unstorable passes the checks of its function. -/
theorem Operation.passes_of_stores (named : workerOk (some worker) = true) (stored : operation.stores = true) :
    operation.Passes worker a := by
  cases operation with
  | complete result policyHash =>
    obtain ⟨d, cast, within⟩ := stores_iff.mp stored
    cases policyHash with
    | none =>
      refine ⟨.complete d none (some (.arr [])), by simp [Operation.verb, cast], ?_⟩
      simp [Taskq.Settlement.fits, named, within, Jsonb.kind]
    | some witness =>
      refine ⟨.completeWithPolicy d none (some (.arr [])) (some witness), by simp [Operation.verb, cast], ?_⟩
      simp [Taskq.Settlement.fits, named, within, Jsonb.kind]
  | fail error retryable retryAfterSeconds progress =>
    obtain ⟨text, carried⟩ := (Bool.and_eq_true _ _).mp stored
    obtain ⟨d, cast, within⟩ := stores_iff.mp carried
    obtain ⟨t, taken⟩ := textArgument_of_stores text
    refine ⟨.fail (some t) (some retryable) (retryAfterSeconds.map (·.1)) d none, by simp [Operation.verb, cast, taken], ?_⟩
    have range : (retryAfterSeconds.map (·.1)).all (fun n => 0 ≤ n ∧ n ≤ 2592000) = true := by
      cases retryAfterSeconds with
      | none => rfl
      | some n => simpa using n.2
    simp only [Taskq.Settlement.fits, named, within, range, Bool.and_self]
  | snooze delaySeconds reason progress =>
    obtain ⟨carried, text⟩ := (Bool.and_eq_true _ _).mp stored
    obtain ⟨d, cast, within⟩ := stores_iff.mp carried
    have range := delaySeconds.2
    cases reason with
    | none =>
      refine ⟨.snooze (some delaySeconds.1) none d, by simp [Operation.verb, cast], ?_⟩
      simp only [Taskq.Settlement.fits, named, within, Option.any_some, range, and_self, decide_true, Bool.and_self]
    | some reason =>
      obtain ⟨t, taken⟩ := textArgument_of_stores (show storesText reason = true from text)
      refine ⟨.snooze (some delaySeconds.1) (some t) d, by simp [Operation.verb, cast, taken], ?_⟩
      simp only [Taskq.Settlement.fits, named, within, Option.any_some, range, and_self, decide_true, Bool.and_self]
  | release cause delaySeconds progress =>
    simp only [Operation.stores, Bool.and_eq_true, decide_eq_true_eq] at stored
    obtain ⟨⟨known, range⟩, carried⟩ := stored
    obtain ⟨d, cast, -⟩ := stores_iff.mp carried
    refine ⟨.release (some cause) (some delaySeconds) d, by simp [Operation.verb, cast], ?_⟩
    simp only [Taskq.Settlement.fits, named, Option.any_some, known, range, and_self, decide_true, Bool.and_self]
  | cancelRunning reason =>
    obtain ⟨t, taken⟩ := textArgument_of_stores stored
    exact ⟨.cancelRunning (some t), by simp [Operation.verb, taken], by simp [Taskq.Settlement.fits, named]⟩

/-- A healthy server settles an attempt that it owns, when the call passes. -/
theorem Operation.Passes.answered {event : JobEvent} (passes : operation.Passes worker a)
    (answer : operation.Answered worker a event) :
    ∃ result, event = .answered result ∧ result.success = true ∧ operation.command.outcomes.contains result = true := by
  obtain ⟨verb, cast, fits⟩ := passes
  cases answer with
  | returned cast' owned run =>
    cases cast.symm.trans cast'
    obtain ⟨job, held, -⟩ := owned
    obtain ⟨success, named⟩ := Settlement.settles run held
    exact ⟨_, rfl, success, Operation.verb_named cast ▸ named⟩
  | refused cast' owned unfit run =>
    cases cast.symm.trans cast'
    exact nomatch fits.symm.trans unfit
  | uncast failed => exact nomatch cast.symm.trans failed

theorem withdrawal_stores {command : Verb} (carried : stores 2048 progress = true) :
    (withdrawal command progress).stores = true := by
  unfold withdrawal
  split_ifs
  · have text : storesText (py "worker_shutdown_deadline") = true := by decide
    simp [Operation.stores, text, carried]
  · simp [Operation.stores, carried, releaseCauses]

theorem HandlerResult.operation_stores {policyHash : Option String} (stored : result.stores = true)
    (carried : Worker.stores 2048 progress = true) : (result.operation policyHash progress).stores = true := by
  cases result with
  | complete result => exact stored
  | snooze delaySeconds own reason =>
    obtain ⟨mine, text⟩ := (Bool.and_eq_true _ _).mp stored
    exact (Bool.and_eq_true _ _).mpr ⟨stores_orElse mine carried, text⟩
  | cancel reason => exact stored
  | retry afterSeconds error own =>
    obtain ⟨text, mine⟩ := (Bool.and_eq_true _ _).mp stored
    refine (Bool.and_eq_true _ _).mpr ⟨?_, stores_orElse mine carried⟩
    split_ifs
    · decide
    · cases error with
      | none => decide
      | some error => exact text
  | nonRetryable error own =>
    obtain ⟨text, mine⟩ := (Bool.and_eq_true _ _).mp stored
    exact (Bool.and_eq_true _ _).mpr ⟨text, stores_orElse mine carried⟩

/-- What is settled after a handler whose output is stored is stored. -/
theorem HandlerOutput.resolve_stores {retry : Bool} {c : RunControl} {resolved : Option HandlerResult}
    (stored : output.stores = true) (resolves : output.resolve retry c = some resolved) :
    ∀ r, resolved = some r → r.stores = true := by
  obtain ⟨plain, normal, rfl⟩ := Option.map_eq_some_iff.mp resolves
  have storedPlain : plain.stores = true := by
    cases output with
    | returned result =>
      cases normal
      exact stored
    | invalid error =>
      cases normal
      exact (Bool.and_eq_true _ _).mpr ⟨storesText_append (by decide) stored, rfl⟩
    | escapes => cases normal
    | raised error =>
      cases normal
      cases retry
      · exact (Bool.and_eq_true _ _).mpr ⟨stored, rfl⟩
      · exact (Bool.and_eq_true _ _).mpr ⟨stored, rfl⟩
    | taskCancelled reason =>
      cases normal
      cases reason <;> decide
    | cancelled =>
      cases normal
      cases c.reason with
      | none => decide
      | some reason => cases reason <;> decide
  intro r same
  split_ifs at same
  · cases same
    decide
  · cases same
    exact storedPlain

theorem HandlerOutput.ended_settles {retry : Bool} (stored : output.stores = true) :
    (output.ended retry).settles = true := by
  cases output with
  | returned result => cases result <;> rfl
  | escapes => cases stored
  | raised error => cases retry <;> rfl
  | invalid | taskCancelled | cancelled => rfl

end Stores

section Loop

variable {l l' : HeartbeatLoop PyValue} {event : BeatEvent PyValue} {now : ℚ} {worker : String} {a : Assignment}

/-- Every checkpoint that the loop knows is stored. -/
structure LoopStores (l : HeartbeatLoop PyValue) : Prop where
  pending : ∀ p, l.context.pending = some p → stores 2048 p = true
  calling : ∀ sent expires g p, l.beat = .calling sent expires (some (g, p)) → stores 2048 p = true
  carried : ∀ g p, (g, p) ∈ l.carried → stores 2048 p = true
  calm : l.runtimeFailed = false

theorem LoopStores.same (kept : LoopStores l) (pending : ∀ p, l'.context.pending = some p → l.context.pending = some p)
    (carried : l'.carried = l.carried) (calm : l'.runtimeFailed = l.runtimeFailed)
    (beat : ∀ sent expires g p, l'.beat = .calling sent expires (some (g, p)) → l'.beat = l.beat) : LoopStores l' :=
  ⟨fun p here => kept.pending p (pending p here),
    fun sent expires g p here => kept.calling sent expires g p ((beat sent expires g p here).symm.trans here),
    fun g p member => kept.carried g p (carried ▸ member), calm.trans kept.calm⟩

theorem LoopStores.head (kept : LoopStores l) : LoopStores (l.head now) := by
  unfold HeartbeatLoop.head
  dsimp only
  have snapshot (g : ℕ) (p : PyValue) (here : l.context.snapshot = some (g, p)) : stores 2048 p = true := by
    obtain ⟨progress, pending, same⟩ := Option.map_eq_some_iff.mp here
    cases same
    exact kept.pending p pending
  have calls (expires : ℚ) : LoopStores { l with
      attempted := true
      beat := .calling now expires l.context.snapshot
      carried := l.carried ++ l.context.snapshot.toList } := by
    refine ⟨kept.pending, fun sent expires g p here => ?_, fun g p member => ?_, kept.calm⟩
    · injection here with _ _ same
      exact snapshot g p same
    · obtain before | now' := List.mem_append.mp member
      · exact kept.carried g p before
      · exact snapshot g p (Option.mem_toList.mp now')
  split_ifs
  · exact kept.same (fun _ here => here) rfl rfl fun _ _ _ _ here => nomatch here
  · exact calls _
  · exact calls _

theorem LoopStores.step (kept : LoopStores l) (taken : l.step now event = some l')
    (said : ∀ p, event = .stage p → stores 2048 p = true) (sound : ∀ fault, event ≠ .failed fault) : LoopStores l' := by
  obtain ⟨wakes, -, sleeping, -, rfl⟩ | ⟨sent, expires, pending, ok, cancelRequested, -, calling, rfl⟩ |
    ⟨sent, expires, pending, fault, failed, -⟩ | ⟨sent, pending, -, calling, rfl⟩ |
    ⟨fired, -, cancelling, rfl⟩ | ⟨sent, expires, pending, -, calling, rfl⟩ | ⟨progress, stage, rfl⟩ | ⟨-, rfl⟩ :=
    HeartbeatLoop.step_cases taken
  · exact (LoopStores.same kept (fun _ here => here) rfl rfl fun _ _ _ _ _ => rfl : LoopStores { l with clock := now }).head
  · unfold HeartbeatLoop.answered
    split_ifs
    · refine kept.same (fun p here => ?_) rfl rfl fun _ _ _ _ here => nomatch here
      cases pending with
      | none => exact here
      | some entry =>
        change (l.context.ack entry.1).pending = some p at here
        unfold Checkpoints.ack at here
        split_ifs at here
        exact here
    · exact kept.same (fun _ here => here) rfl rfl fun _ _ _ _ here => nomatch here
  · exact absurd failed (sound fault)
  · exact kept.same (fun _ here => here) rfl rfl fun _ _ _ _ here => nomatch here
  · exact kept.same (fun _ here => here) rfl rfl fun _ _ _ _ here => nomatch here
  · exact kept.same (fun _ here => here) rfl rfl fun _ _ _ _ here => nomatch here
  · refine ⟨fun p here => ?_, kept.calling, kept.carried, kept.calm⟩
    cases here
    exact said _ stage
  · refine kept.same (fun _ here => here) rfl rfl fun _ _ _ _ here => ?_
    dsimp only at here
    split at here <;> cases here

/-- A healthy server answers a heartbeat whose checkpoint is stored. -/
theorem LoopStores.answered {settling : Prop} {sent expires : ℚ} {pending : Option (ℕ × PyValue)}
    (kept : LoopStores l) (calling : l.beat = .calling sent expires pending)
    (answer : a.Beats worker settling pending event) : ∃ ok cancelRequested, event = .answered ok cancelRequested := by
  have stored : stores 2048 (carriedProgress pending) = true := by
    cases pending with
    | none => rfl
    | some entry => exact kept.calling sent expires entry.1 entry.2 calling
  obtain ⟨d, cast, within⟩ := stores_iff.mp stored
  cases answer with
  | returned => exact ⟨_, _, rfl⟩
  | refused cast' _ unfit _ =>
    cases cast.symm.trans cast'
    exact absurd within unfit
  | uncast failed => exact nomatch cast.symm.trans failed

end Loop

section Job

variable {o : Options} {worker : String} {a : Assignment} {j k : HandledJob} {t : JobTask} {said : Said}
  {stopping deadlineReached : Bool} {now : ℚ}

/-- The end of the handler that the task has seen. -/
def HandledJob.seen (a : Assignment) (j : HandledJob) : Option HandlerEnd := j.output.map (·.ended a.retry)

/-- What holds of a job whose handler says only what is stored. -/
structure Storable (a : Assignment) (j : HandledJob) : Prop where
  unharmed : Unharmed j.task
  progress : stores 2048 j.progress = true
  loop : ∀ l, j.loop = some l → LoopStores l
  output : ∀ output, j.output = some output → output.stores = true
  payloadError : storesText j.payloadError = true
  awaits : (∀ e, j.task.stage = .gracing e → j.seen a = some e) ∧ (j.task.stage = .draining → j.seen a = some .cancelled)
  unsettled : j.task.stage.unsettled = true → j.operation = none
  calls : ∀ s, j.task.stage = .settling s → s.phase = .calling →
    ∃ operation, j.operation = some operation ∧ operation.command = s.loop.command
  stored : ∀ operation, j.operation = some operation → operation.stores = true
  sent : ∀ operation ∈ j.sent, operation.stores = true

/-- The call of a settlement that was opened without harm is stored, and is the settlement's verb. -/
theorem Storable.operationOf {s : Settling} (kept : Storable a j) (bounds : 0 ≤ o.noHandlerDelaySeconds ∧
    o.noHandlerDelaySeconds ≤ 86400 ∧ 0 ≤ o.unsupportedPolicyDelaySeconds ∧ o.unsupportedPolicyDelaySeconds ≤ 86400)
    (claimed : stores 2048 a.progress = true) (opens : s.Opens o (j.seen a) t) :
    (j.operationOf o a t.control s).stores = true ∧ (j.operationOf o a t.control s).command = s.loop.command := by
  obtain ⟨noHandler, noHandler', policy, policy'⟩ := bounds
  unfold Settling.Opens at opens
  unfold HandledJob.operationOf
  split at opens
  · rename_i purpose
    simp only [purpose]
    refine ⟨?_, opens.symm⟩
    simp [Operation.stores, claimed, releaseCauses, noHandler, noHandler']
  · rename_i purpose
    simp only [purpose]
    refine ⟨?_, opens.symm⟩
    simp [Operation.stores, claimed, releaseCauses, policy, policy']
  · rename_i purpose
    simp only [purpose]
    exact ⟨withdrawal_stores claimed, withdrawal_command (.inr opens) _⟩
  · rename_i purpose
    simp only [purpose]
    refine ⟨HandlerResult.operation_stores ?_ claimed, opens.symm⟩
    exact (Bool.and_eq_true _ _).mpr ⟨storesText_append (by decide) kept.payloadError, rfl⟩
  · rename_i purpose
    simp only [purpose]
    exact ⟨withdrawal_stores kept.progress, withdrawal_command opens _⟩
  · rename_i purpose
    obtain ⟨e, c, seen, there, resolves, command⟩ := opens
    obtain ⟨output, here, rfl⟩ := Option.map_eq_some_iff.mp seen
    rw [HandlerOutput.resolveIntent_ended] at resolves
    simp only [purpose, here, there, Option.bind_some]
    cases resolved : output.resolve a.retry c with
    | none =>
      rw [resolved] at resolves
      cases resolves
    | some result =>
      rw [resolved] at resolves
      have intent : result.map HandlerResult.intent = s.intent := by
        simpa using resolves
      cases result with
      | none =>
        refine ⟨withdrawal_stores kept.progress, ?_⟩
        rw [command, ← intent]
        exact withdrawal_command (intentVerb_none o _) _
      | some result =>
        have stored := HandlerOutput.resolve_stores (kept.output output here) resolved result rfl
        refine ⟨HandlerResult.operation_stores stored kept.progress, ?_⟩
        rw [command, ← intent]
        exact HandlerResult.operation_command o _ _ _ _
  · exact opens.elim

/-- The limits of `WorkerOptions` on the delays with which a worker gives jobs back. -/
def Options.Bounded (o : Options) : Prop :=
  0 ≤ o.noHandlerDelaySeconds ∧ o.noHandlerDelaySeconds ≤ 86400 ∧
    0 ≤ o.unsupportedPolicyDelaySeconds ∧ o.unsupportedPolicyDelaySeconds ≤ 86400

/-- A task that does not call keeps what was called. -/
theorem HandledJob.moved_quiet (quiet : ∀ s, t.stage = .settling s → s.phase = .entering) :
    j.moved o a t = { j with task := t } := by
  unfold moved
  split
  · rename_i s stage
    rw [if_pos (quiet s stage)]
  · rfl

theorem HandledJob.moved_calling {s : Settling} (stage : t.stage = .settling s) (calling : s.phase = .calling) :
    j.moved o a t = { j with
      task := t
      operation := some (j.operation.getD (j.operationOf o a t.control s))
      sent := if t.sent = j.task.sent then j.sent
        else j.sent ++ [j.operation.getD (j.operationOf o a t.control s)] } := by
  unfold moved
  simp only [stage, calling]
  rw [if_neg (by decide)]

theorem Storable.moved (kept : Storable a j) (bounds : o.Bounded) (claimed : stores 2048 a.progress = true)
    (proceeds : Proceeds o (j.seen a) j.task t) : Storable a (j.moved o a t) := by
  obtain ⟨stage, sent, clear⟩ | ⟨leaves, fresh⟩ := proceeds
  · have unharmed : Unharmed t := kept.unharmed.of_stage clear stage
    have plain : Storable a { j with task := t } :=
      ⟨unharmed, kept.progress, kept.loop, kept.output, kept.payloadError,
        ⟨fun e here => kept.awaits.1 e (stage ▸ here), fun here => kept.awaits.2 (stage ▸ here)⟩,
        fun unsettled => kept.unsettled (stage ▸ unsettled), fun s here => kept.calls s (stage ▸ here), kept.stored,
        kept.sent⟩
    by_cases quiet : ∀ s, t.stage = .settling s → s.phase = .entering
    · rw [HandledJob.moved_quiet quiet]
      exact plain
    · push Not at quiet
      obtain ⟨s, here, entering⟩ := quiet
      obtain calling | wrong := (unharmed.settling s here).2
      · obtain ⟨operation, there, -⟩ := kept.calls s (stage ▸ here) calling
        rw [HandledJob.moved_calling here calling, if_pos sent, there]
        exact { plain with
          unsettled := fun unsettled => by simp [here, Stage.unsettled, calling] at unsettled
          calls := fun s' here' calling' => there ▸ kept.calls s' (stage ▸ here') calling'
          stored := fun _ same => by cases same; exact kept.stored operation there }
      · exact absurd wrong.1 entering
  · by_cases quiet : ∀ s, t.stage = .settling s → s.phase = .entering
    · rw [HandledJob.moved_quiet quiet]
      refine ⟨leaves.toUnharmed, kept.progress, kept.loop, kept.output, kept.payloadError, leaves.awaits,
        fun unsettled => ?_, fun s here calling => ?_, kept.stored, kept.sent⟩
      · obtain before | over' := fresh
        · exact kept.unsettled before
        · cases stage : t.stage <;> simp [stage, Stage.unsettled, Stage.over] at unsettled over'
      · exact nomatch (quiet s here).symm.trans calling
    · push Not at quiet
      obtain ⟨s, here, entering⟩ := quiet
      obtain calling | wrong := (leaves.settling s here).2
      · have none' : j.operation = none := by
          obtain before | over' := fresh
          · exact kept.unsettled before
          · simp [here, Stage.over] at over'
        obtain ⟨stored, command⟩ := kept.operationOf bounds claimed (leaves.opens s here)
        rw [HandledJob.moved_calling here calling, none']
        refine ⟨leaves.toUnharmed, kept.progress, kept.loop, kept.output, kept.payloadError, leaves.awaits,
          fun unsettled => ?_, fun s' here' _ => ?_, fun operation same => ?_, fun operation member => ?_⟩
        · simp [here, Stage.unsettled, calling] at unsettled
        · cases here.symm.trans here'
          exact ⟨_, rfl, command⟩
        · cases same
          exact stored
        · split_ifs at member
          · exact kept.sent operation member
          · obtain before | last := List.mem_append.mp member
            · exact kept.sent operation before
            · cases List.mem_singleton.mp last
              exact stored
      · exact absurd wrong.1 entering

/-- The loop's step, told to the task, keeps what holds. -/
theorem Storable.heard {l l' : HeartbeatLoop PyValue} {event : BeatEvent PyValue} (kept : Storable a j)
    (stores' : LoopStores l') : Storable a (j.heard l l' event) := by
  have told {t : JobTask} (clear : Clear t) (stage : t.stage = j.task.stage) :
      Storable a { j with loop := some l', task := t } :=
    ⟨kept.unharmed.of_stage clear stage, kept.progress, fun l here => by cases here; exact stores', kept.output,
      kept.payloadError, ⟨fun e here => kept.awaits.1 e (stage ▸ here), fun here => kept.awaits.2 (stage ▸ here)⟩,
      fun unsettled => kept.unsettled (stage ▸ unsettled), fun s here => kept.calls s (stage ▸ here), kept.stored,
      kept.sent⟩
  unfold HandledJob.heard
  dsimp only
  split_ifs
  · refine told ?_ rfl
    rw [stores'.calm]
    exact Clear.loseOwnership kept.unharmed.control
  · exact told (Clear.withControl kept.unharmed.control fun _ => rfl) rfl
  · exact told kept.unharmed.control rfl

theorem checkpointCopy_same {p copied : PyValue} (accepted : checkpointCopy p = some copied) : copied = p := by
  unfold checkpointCopy at accepted
  split at accepted
  · split_ifs at accepted
    cases accepted
    rfl
  · cases accepted

/-- A step in which only what is stored is said keeps what holds. -/
theorem Storable.step (kept : Storable a j) (bounds : o.Bounded) (named : workerOk (some worker) = true)
    (claimed : stores 2048 a.progress = true) (said' : said.stores = true)
    (step : HandledJob.Step o worker a stopping deadlineReached now j said k) : Storable a k := by
  -- an event that ends no wait for the handler leaves what the task has seen of it
  have sees (event : JobEvent) (heard : ∀ e, event = .handlerEnded e → j.task.stage ≠ .handling)
      (cancel : event ≠ .cancel) : Sees (j.seen a) j.task event :=
    ⟨fun e same handling => absurd handling (heard e same), fun same => absurd same cancel, kept.awaits.1, kept.awaits.2⟩
  cases step with
  | @start preparation t idle step =>
    have sees := sees (.start preparation) (fun e same => by cases same) (fun same => by cases same)
    refine kept.moved bounds claimed (kept.unharmed.step ?_ sees step)
    obtain rfl | rfl := idle <;> exact trivial
  | @invalidPayload error t step =>
    have kept' : Storable a { j with payloadError := error } := { kept with payloadError := said' }
    have sees := sees (.start .invalidPayload) (fun e same => by cases same) (fun same => by cases same)
    have harmless : JobEvent.Harmless j.task (.start .invalidPayload) := trivial
    exact kept'.moved bounds claimed (kept.unharmed.step harmless sees step)
  | startRaises => cases said'
  | @ready isSync t fresh taken step =>
    have kept' : Storable a { j with loop := some (HeartbeatLoop.started a.leaseSeconds a.claimedAt now) } :=
      { kept with
        loop := fun l here => by
          cases here
          exact ⟨fun _ none => (nomatch none), fun _ _ _ _ here => (nomatch here), fun _ _ none => (nomatch none), rfl⟩ }
    have sees := sees (.start (.ready isSync)) (fun e same => by cases same) (fun same => by cases same)
    have harmless : JobEvent.Harmless j.task (.start (.ready isSync)) := trivial
    exact kept'.moved bounds claimed (kept.unharmed.step harmless sees step)
  | @checkpoint progress copied l l' there accepted step =>
    cases checkpointCopy_same accepted
    have stores' : LoopStores l' := (kept.loop l there).step step (fun p same => by cases same; exact said')
      fun fault same => by cases same
    exact { kept with
      progress := said'
      loop := fun l₁ here => by cases here; exact stores' }
  | @ended output t handling step =>
    have kept' : Storable a { j with output := some output } := { kept with
      output := fun _ same => by cases same; exact said'
      awaits := ⟨fun e here => (nomatch handling.symm.trans here), fun here => (nomatch handling.symm.trans here)⟩ }
    have harmless : JobEvent.Harmless j.task (.handlerEnded (output.ended a.retry)) :=
      fun _ => HandlerOutput.ended_settles said'
    exact kept'.moved bounds claimed (kept.unharmed.step harmless
      ⟨fun e same _ => (by cases same; rfl), fun same => (by cases same), kept'.awaits.1, kept'.awaits.2⟩ step)
  | @endedLate ended t left step =>
    have sees := sees (.handlerEnded ended) (fun _ _ => left) (fun same => by cases same)
    have harmless : JobEvent.Harmless j.task (.handlerEnded ended) := fun handling => absurd handling left
    exact kept.moved bounds claimed (kept.unharmed.step harmless sees step)
  | @cancel t step =>
    have harmless : JobEvent.Harmless j.task .cancel := trivial
    by_cases handling : j.task.stage = .handling
    · have interrupted : j.interrupted = { j with output := some .cancelled } := by
        simp only [HandledJob.interrupted, handling]
      have kept' : Storable a { j with output := some .cancelled } := { kept with
        output := fun _ same => by cases same; rfl
        awaits := ⟨fun e here => (nomatch handling.symm.trans here), fun here => (nomatch handling.symm.trans here)⟩ }
      rw [interrupted]
      exact kept'.moved bounds claimed (kept.unharmed.step harmless
        ⟨fun e same => (by cases same), fun _ _ => rfl, kept'.awaits.1, kept'.awaits.2⟩ step)
    · have interrupted : j.interrupted = j := by
        unfold HandledJob.interrupted
        split
        · rename_i here
          exact absurd here handling
        · rfl
      rw [interrupted]
      exact kept.moved bounds claimed (kept.unharmed.step harmless
        ⟨fun e same => (by cases same), fun _ here => absurd here handling, kept.awaits.1, kept.awaits.2⟩ step)
  | @act event t own step =>
    have sees := sees event (fun e same => by subst same; cases own) (fun same => by subst same; cases own)
    refine kept.moved bounds claimed (kept.unharmed.step ?_ sees step)
    cases event <;> first | exact trivial | cases own
  | @answered operation event t there answer step =>
    have passes := Operation.passes_of_stores (a := a) named (kept.stored operation there)
    obtain ⟨result, rfl, success, outcome⟩ := passes.answered answer
    have sees := sees (.answered result) (fun e same => by cases same) (fun same => by cases same)
    have harmless : JobEvent.Harmless j.task (.answered result) := by
      refine fun s stage => ⟨success, ?_⟩
      obtain calling | ⟨entering, -⟩ := (kept.unharmed.settling s stage).2
      · obtain ⟨operation', there', command⟩ := kept.calls s stage calling
        cases there.symm.trans there'
        exact command ▸ outcome
      · have unsettled := kept.unsettled (by simp [stage, Stage.unsettled, entering])
        cases there.symm.trans unsettled
    exact kept.moved bounds claimed (kept.unharmed.step harmless sees step)
  | @beat l l' event there own step =>
    refine kept.heard ((kept.loop l there).step step (fun p same => ?_) fun fault same => ?_)
    · subst same
      cases own
    · subst same
      cases own
  | @beatAnswered l l' event sent expires pending there calling answer step =>
    obtain ⟨ok, cancelRequested, rfl⟩ := (kept.loop l there).answered calling answer
    exact kept.heard ((kept.loop l there).step step (fun p same => by cases same) fun fault same => by cases same)
  | @beatEnds l l' there over' step =>
    have stores' : LoopStores l' := (kept.loop l there).step step (fun p same => by cases same)
      fun fault same => by cases same
    exact { kept with loop := fun l₁ here => by cases here; exact stores' }

theorem Storable.submitted (claimed : stores 2048 a.progress = true) : Storable a (.submitted a) where
  unharmed := by
    refine ⟨fun _ none => (nomatch none), fun _ here => (nomatch here), fun _ here => (nomatch here), fun _ here => ?_⟩
    obtain here | here := here <;> cases here
  progress := claimed
  loop := fun _ none => nomatch none
  output := fun _ none => nomatch none
  payloadError := rfl
  awaits := ⟨fun _ here => (nomatch here), fun here => (nomatch here)⟩
  unsettled := fun _ => rfl
  calls := fun _ here => nomatch here
  stored := fun _ none => nomatch none
  sent := fun _ none => nomatch none

theorem HandledJob.Run.storable (bounds : o.Bounded) (named : workerOk (some worker) = true)
    (claimed : stores 2048 a.progress = true) (run : HandledJob.Run o worker a (fun said => said.stores = true) j) :
    Storable a j := by
  induction run with
  | start => exact .submitted claimed
  | step before said' step ih => exact ih.step bounds named claimed said' step

/-- The calls and the end of a job whose worker goes on: every call passes the checks of its SQL function, every
heartbeat's checkpoint is stored within its limit, and the task neither raises nor ends with a fatal report. -/
def HandledJob.GoesOn (worker : String) (a : Assignment) (j : HandledJob) : Prop :=
  (∀ operation ∈ j.sent, operation.Passes worker a) ∧
  (∀ l, j.loop = some l → ∀ g p, (g, p) ∈ l.carried → stores 2048 p = true) ∧
  ∀ ended, j.task.stage = .closing ended ∨ j.task.stage = .ended ended → ended.harmless = true

/-- In every run in which the handler, and the progress that its job was claimed with, say only what the database stores
within its limits, the worker goes on. -/
theorem handler_outputs_stored (bounds : o.Bounded) (named : workerOk (some worker) = true)
    (claimed : stores 2048 a.progress = true) (run : HandledJob.Run o worker a (fun said => said.stores = true) j) :
    j.GoesOn worker a := by
  have storable := run.storable bounds named claimed
  refine ⟨fun operation member => ?_, fun l there g p member => ?_, storable.unharmed.harmless⟩
  · exact Operation.passes_of_stores named (storable.sent operation member)
  · exact (storable.loop l there).carried g p member

end Job

section Cases

/-- A claimed job with a lease of a minute. -/
def claimedMinute : Assignment := ⟨2, 3, 60, 0, .none, none, true⟩

/-- The task of the job, once its handler runs. -/
def handlingMinute : JobTask := (JobTask.submitted 2 60).start false false 0 (.ready false)

theorem handlingMinute_starts :
    (JobTask.submitted 2 60).step {} false false 0 (.start (.ready false)) = some handlingMinute := rfl

/-- The job, once its handler runs. -/
def startedMinute : HandledJob := ⟨handlingMinute, .none, some (.started 60 0 0), none, [], none, []⟩

theorem startedMinute_run (fine : Said → Prop) (quiet : fine .quiet) :
    HandledJob.Run {} "w" claimedMinute fine startedMinute := by
  have step : HandledJob.Step {} "w" claimedMinute false false 0 (.submitted claimedMinute) .quiet _ :=
    .ready rfl (.inl rfl) handlingMinute_starts
  exact .step .start quiet step

/-- The job's loop, once its handler has staged a checkpoint at once. -/
def stagedMinute (progress : PyValue) : HeartbeatLoop PyValue :=
  { HeartbeatLoop.started 60 0 0 with context := ⟨1, some progress⟩, staged := [(1, progress)] }

/-- The first heartbeat carries the checkpoint. -/
def callingMinute (progress : PyValue) : HeartbeatLoop PyValue := { stagedMinute progress with clock := 20 }.head 20

theorem stagedMinute_stages (progress : PyValue) :
    HeartbeatLoop.step 0 (.stage progress) (.started 60 0 0) = some (stagedMinute progress) := by
  unfold HeartbeatLoop.step
  rw [if_neg (by norm_num [HeartbeatLoop.started, Beat.due, heartbeatInterval, leaseBudget])]
  rfl

theorem callingMinute_wakes (progress : PyValue) :
    HeartbeatLoop.step 20 .wake (stagedMinute progress) = some (callingMinute progress) := by
  have due : ¬((20 : ℚ) < 0 ∨ (HeartbeatLoop.started (P := PyValue) 60 0 0).beat.due.any (· < 20) = true) := by
    norm_num [HeartbeatLoop.started, Beat.due, heartbeatInterval, leaseBudget]
  have wakes : (20 : ℚ) = 0 + max 0 (min (heartbeatInterval 60) ((0 + leaseBudget 60 - 0) / 2)) := by
    norm_num [heartbeatInterval, leaseBudget]
  exact (if_neg due).trans (if_pos wakes)

theorem callingMinute_calls (progress : PyValue) :
    ∃ expires, (callingMinute progress).beat = .calling 20 expires (some (1, progress)) := by
  refine ⟨_, (congrArg HeartbeatLoop.beat (if_neg ?_)).trans rfl⟩
  exact fun wrong => nomatch wrong.1

/-- The job, once its first heartbeat carries the checkpoint of its handler. -/
def calledMinute (progress : PyValue) : HandledJob :=
  ⟨handlingMinute, progress, some (callingMinute progress), none, [], none, []⟩

theorem calledMinute_run {progress : PyValue} (accepted : checkpointCopy progress = some progress) (fine : Said → Prop)
    (quiet : fine .quiet) (staging : fine (.checkpoint progress)) :
    HandledJob.Run {} "w" claimedMinute fine (calledMinute progress) := by
  have checkpoints : HandledJob.Step {} "w" claimedMinute false false 0 startedMinute (.checkpoint progress)
      ⟨handlingMinute, progress, some (stagedMinute progress), none, [], none, []⟩ :=
    .checkpoint rfl accepted (stagedMinute_stages progress)
  have beats : HandledJob.Step {} "w" claimedMinute false false 20
      ⟨handlingMinute, progress, some (stagedMinute progress), none, [], none, []⟩ .quiet (calledMinute progress) :=
    .beat rfl rfl (callingMinute_wakes progress)
  exact .step (.step (startedMinute_run fine quiet) staging checkpoints) quiet beats

/-- A job of queue q is claimed by worker w. -/
def claimedByW : List (Time × Command) :=
  [(0, .ensureQueue (some "q") none), (0, .enqueue (.simple "q")), (0, .claimJobs (.simple "q" 1))]

theorem checkpointCopy_short {fields : List (PyKey × PyValue)}
    (short : ((dumps (.dict fields)).bind encodedLength).any (· ≤ 2048) = true) :
    checkpointCopy (.dict fields) = some (.dict fields) :=
  if_pos short

/-- A small cursor. -/
def cursorOne : PyValue := .dict [(.str (py "k"), .int 1)]

theorem cursorOne_accepted : checkpointCopy cursorOne = some cursorOne := checkpointCopy_short (by decide)

/-- The loop after its first heartbeat is confirmed. -/
def beatenMinute (progress : PyValue) : HeartbeatLoop PyValue :=
  { callingMinute progress with clock := 20 }.answered 20 20 (some (1, progress)) true false

theorem beatenMinute_beats (progress : PyValue) :
    HeartbeatLoop.step 20 (.answered true false) (callingMinute progress) = some (beatenMinute progress) := by
  have due : ¬((20 : ℚ) < 20 ∨ (some (20 + max 0 (max (0 + leaseBudget 60 - 20) (heartbeatInterval 60)))).any
      (· < 20) = true) := by
    norm_num [heartbeatInterval, leaseBudget]
  exact (if_neg due).trans rfl

/-- A handler that sends a checkpoint with a heartbeat and then completes its job with a result. -/
theorem handler_outputs_stored_completed : ∃ j : HandledJob, j.operation.isSome = true ∧ j.sent.length = 1 ∧
    (∃ l, j.loop = some l ∧ (1, cursorOne) ∈ l.carried) ∧ j.GoesOn "w" claimedMinute := by
  have played : System.plays .plain claimedByW (.installed .plain 0) (fun s =>
    ((runningJob s.db.toCore 2 3).any fun job => job.workerId = some "w") &&
      match jsonParam cursorOne with
      | .ok d => (heartbeat (.alone .plain 20000000 9) 2 3 (some "w") (some 60) d none s.db).toOption.any fun e =>
          e.1.ok && !e.1.cancelRequested
      | .error _ => false) = true := by decide +kernel
  obtain ⟨s, -, there⟩ := System.plays_run anyCall played fun _ _ _ => trivial
  obtain ⟨owned, beats⟩ := (Bool.and_eq_true _ _).mp there
  obtain ⟨job, held, own⟩ := (Option.any_eq_true _ _).mp owned
  have owned : claimedMinute.Owned "w" s.db := ⟨job, held, by simpa using own⟩
  split at beats
  · rename_i d cast
    obtain ⟨⟨answer, db'⟩, run, confirmed⟩ := (Option.any_eq_true _ _).mp beats
    obtain ⟨ok, uncancelled⟩ := (Bool.and_eq_true _ _).mp confirmed
    have answered : claimedMinute.Beats "w" ((calledMinute cursorOne).task.sent ≠ []) (some (1, cursorOne))
        (.answered answer.ok answer.cancelRequested) := .returned cast (.inr owned) (toOption_eq_some.mp run)
    rw [ok, (Bool.not_eq_true' _).mp uncancelled] at answered
    obtain ⟨expires, calls⟩ := callingMinute_calls cursorOne
    have confirms : HandledJob.Step {} "w" claimedMinute false false 20 (calledMinute cursorOne) .quiet
        ⟨handlingMinute, cursorOne, some (beatenMinute cursorOne), none, [], none, []⟩ :=
      .beatAnswered (j := calledMinute cursorOne) rfl calls answered (beatenMinute_beats cursorOne)
    let output : HandlerOutput := .returned (.complete cursorOne)
    let calling : JobTask := { handlingMinute with handlerDone := true }.afterHandler {}
      { isSync := false, leaseSeconds := 60 } (.returned (.intent (.complete false))) 21
    have ends : JobTask.step {} false false 21 (.handlerEnded (output.ended claimedMinute.retry)) handlingMinute =
        some calling := rfl
    have stored : (Said.output output).stores = true := by decide
    have first := calledMinute_run cursorOne_accepted (fun said => said.stores = true) rfl (by decide)
    have run := (first.step rfl confirms).step stored (.ended rfl ends)
    refine ⟨_, rfl, rfl, ⟨_, rfl, ?_⟩,
      handler_outputs_stored ⟨by decide, by decide, by decide, by decide⟩ (by decide) rfl run⟩
    exact List.mem_singleton.mpr rfl
  · cases beats

/-- A checkpoint of 1407 bytes that the database writes with 2107. -/
def zeros : PyValue := .dict [(.str (py "k"), .list (List.replicate 700 (.int 0)))]

theorem dumpsElements_replicate {x : PyValue} {part : PyStr} (dumped : dumps x = some part) (n : ℕ) :
    dumpsElements (List.replicate n x) = some (List.replicate n part) := by
  induction n with
  | zero => rfl
  | succ n ih => simp only [List.replicate_succ, dumpsElements, dumped, ih, Option.bind_eq_bind, Option.bind_some]

theorem documents_replicate {x : PyValue} {d : Jsonb} (read : document x = some d) (n : ℕ) :
    documents (List.replicate n x) = some (List.replicate n d) := by
  induction n with
  | zero => rfl
  | succ n ih => simp only [List.replicate_succ, documents, read, ih, Option.bind_eq_bind, Option.bind_some]

/-- The worker writes a separator of one byte between its elements, the database one of two. -/
theorem length_intercalate_replicate (separator part : PyStr) (n : ℕ) :
    (List.intercalate separator (List.replicate (n + 1) part)).length = (n + 1) * part.length + n * separator.length := by
  induction n with
  | zero => simp
  | succ n ih =>
    rw [List.replicate_succ] at ih ⊢
    rw [List.replicate_succ, List.intercalate_cons_cons, List.length_append, List.length_append, ih]
    ring

theorem length_elementChars_replicate (d : Jsonb) (n : ℕ) :
    (Jsonb.elementChars (List.replicate (n + 1) d)).length = (n + 1) * d.chars.length + n * 2 := by
  have separator : ", ".toList.length = 2 := by decide
  induction n with
  | zero => simp [Jsonb.elementChars]
  | succ n ih =>
    rw [List.replicate_succ] at ih ⊢
    rw [List.replicate_succ, Jsonb.elementChars, List.length_append, List.length_append, ih, separator]
    ring

theorem all_intercalate_replicate {p : Code → Bool} {separator part : PyStr} (between : separator.all p = true)
    (each : part.all p = true) (n : ℕ) : (List.intercalate separator (List.replicate n part)).all p = true := by
  induction n with
  | zero => rfl
  | succ n ih =>
    cases n with
    | zero => simpa using each
    | succ n =>
      rw [List.replicate_succ] at ih ⊢
      rw [List.replicate_succ, List.intercalate_cons_cons, List.all_append, List.all_append, each, between, ih]
      rfl

/-- A character below 128 takes one byte. -/
theorem encodedLength_ascii {s : PyStr} (ascii : s.all (·.val < 0x80) = true) : encodedLength s = some s.length := by
  have small : ∀ c ∈ s, c.val < 0x80 := by simpa using ascii
  have whole : s.any surrogate = false := by
    rw [List.any_eq_false]
    intro c there
    have := small c there
    simp only [surrogate, highSurrogate, lowSurrogate, Bool.or_eq_true, Bool.and_eq_true, decide_eq_true_eq]
    omega
  have bytes : s.map utf8Size = s.map fun _ => 1 := List.map_congr_left fun c there => if_pos (small c there)
  rw [encodedLength, if_neg (by simp [whole]), bytes, List.map_const', List.sum_replicate, Nat.nsmul_eq_mul, Nat.mul_one]

theorem zeros_dumps (n : ℕ) : dumps (.dict [(.str (py "k"), .list (List.replicate n (.int 0)))]) =
    some (py "\x7b\"k\":[" ++ List.intercalate (py ",") (List.replicate n (py "0")) ++ py "]\x7d") := by
  have digit : dumps (.int 0) = some (py "0") := by decide
  have opening : py "\x7b\"k\":[" = py "\x7b" ++ (quoted (py "k") ++ py ":" ++ py "[") := by decide
  have closing : py "]\x7d" = py "]" ++ py "\x7d" := by decide
  rw [opening, closing]
  simp only [dumps, dumpsFields, PyKey.text, dumpsElements_replicate digit, Option.map_some, Option.bind_eq_bind,
    Option.bind_some, List.append_assoc, List.intercalate_singleton]

theorem zeros_document (n : ℕ) : document (.dict [(.str (py "k"), .list (List.replicate n (.int 0)))]) =
    some (.obj [("k", .arr (List.replicate n (.ofInt 0)))]) := by
  have key : (PyKey.str (py "k")).text.bind unescaped = some ['k'] := by decide
  have digit : document (.int 0) = some (.ofInt 0) := rfl
  simp only [document, entries, key, documents_replicate digit, Option.bind_eq_bind, Option.bind_some, Option.map_some]
  rfl

theorem zeros_overlong (n : ℕ) :
    3 * n < octetLength (Jsonb.obj [("k", .arr (List.replicate (n + 1) (.ofInt 0)))]).text := by
  have digit : (Jsonb.ofInt 0).chars.length = 1 := by decide
  refine lt_of_lt_of_le ?_ (length_le_octetLength _)
  simp only [Jsonb.text, String.length_ofList, Jsonb.chars, Jsonb.fieldChars, List.length_append, List.length_cons,
    length_elementChars_replicate, digit]
  omega

theorem zeros_accepted : checkpointCopy zeros = some zeros := by
  refine checkpointCopy_short ?_
  rw [zeros_dumps, Option.bind_some, encodedLength_ascii, Option.any_some, List.length_append, List.length_append,
    length_intercalate_replicate]
  · decide
  · rw [List.all_append, List.all_append, all_intercalate_replicate (by decide) (by decide)]
    decide

theorem jsonParam_dict {fields : List (PyKey × PyValue)} {written : PyStr} {d : Jsonb}
    (dumped : dumps (.dict fields) = some written) (read : document (.dict fields) = some d) :
    jsonParam (.dict fields) = .ok (some d) := by
  simp only [jsonParam, dumped, read]

theorem zeros_param : ∃ d, jsonParam zeros = .ok d ∧ ¬withinBytes 2048 d := by
  rw [zeros]
  refine ⟨_, jsonParam_dict (zeros_dumps 700) (zeros_document 700), fun within => ?_⟩
  rw [withinBytes, Option.all_some, decide_eq_true_eq] at within
  have long : 3 * 699 < octetLength (Jsonb.obj [("k", .arr (List.replicate 700 (.ofInt 0)))]).text := zeros_overlong 699
  omega

/-- The error of a heartbeat whose progress is too long. -/
def progressRefused : SqlError := tq422 "progress exceeds the 2KB limit — keep it a cursor, not a result set"

/-- A heartbeat is refused for the length of its progress. -/
theorem heartbeat_refuses {env : Env} {db : Db} {jobId attemptId : Uuid} {worker : Option String} {lease : Option ℤ}
    {progress : Option Jsonb} (named : workerOk worker = true)
    (leased : lease.all (fun n => 15 ≤ n ∧ n ≤ 86400) = true) (overlong : ¬withinBytes 2048 progress) :
    heartbeat env jobId attemptId worker lease progress none db =
      .error progressRefused := by
  unfold heartbeat
  rw [seq_eq_error]
  refine .inr ⟨(), ensure_eq_ok.mpr named, ?_⟩
  rw [seq_eq_error]
  refine .inr ⟨(), ensure_eq_ok.mpr leased, ?_⟩
  rw [seq_eq_error]
  exact .inl (ensure_eq_error.mpr ⟨overlong, rfl⟩)

/-- The worker takes a checkpoint that its heartbeat is then refused for, and the job's report is fatal. -/
theorem handler_outputs_overlong : ∃ j : HandledJob, HandledJob.Run {} "w" claimedMinute (fun _ => True) j ∧
    ¬j.GoesOn "w" claimedMinute ∧ ∃ r, j.task.stage = .ended (.report r) ∧ r.fatal = true := by
  have played : System.plays .plain claimedByW (.installed .plain 0) (fun s =>
    (runningJob s.db.toCore 2 3).any fun job => job.workerId = some "w") = true := by decide +kernel
  obtain ⟨s, -, there⟩ := System.plays_run anyCall played fun _ _ _ => trivial
  obtain ⟨job, held, own⟩ := (Option.any_eq_true _ _).mp there
  have owned : claimedMinute.Owned "w" s.db := ⟨job, held, by simpa using own⟩
  obtain ⟨d, cast, overlong⟩ := zeros_param
  -- the handler stages its checkpoint at once, and the first heartbeat carries it
  have first : HandledJob.Run {} "w" claimedMinute (fun _ => True) (calledMinute zeros) :=
    calledMinute_run zeros_accepted (fun _ => True) trivial trivial
  obtain ⟨expires, calls⟩ := callingMinute_calls zeros
  let calling := callingMinute zeros
  let lost : HeartbeatLoop PyValue := { HeartbeatLoop.lose 20 { calling with clock := 20 } with runtimeFailed := true }
  have loses : HeartbeatLoop.step 20 (.failed (.ofSql progressRefused)) calling = some lost := by
    unfold HeartbeatLoop.step
    rw [if_neg (by decide +kernel)]
    simp only [calling, calls]
    rfl
  let dropped : JobTask := { handlingMinute.loseOwnership true with disowned := false }
  have hears : (calledMinute zeros).heard calling lost (.failed (.ofSql progressRefused)) =
      ⟨dropped, zeros, some lost, none, [], none, []⟩ := by
    unfold HandledJob.heard HeartbeatLoop.gaveUp
    simp only [calling, calls]
    rfl
  have refused : heartbeat (.alone .plain 0 0) 2 3 (some "w") (some 60) d none s.db = .error progressRefused :=
    heartbeat_refuses rfl (by decide) overlong
  have refuses : claimedMinute.Beats "w" ((calledMinute zeros).task.sent ≠ []) (some (1, zeros))
      (.failed (.ofSql progressRefused)) := .refused cast (.inr owned) overlong refused
  have loses' : HandledJob.Step {} "w" claimedMinute false false 20 (calledMinute zeros) .quiet
      ⟨dropped, zeros, some lost, none, [], none, []⟩ :=
    hears ▸ .beatAnswered (j := calledMinute zeros) rfl calls refuses loses
  -- the handler is cancelled, and its task reports that it was refused
  let dropping : JobTask := { dropped with handlerDone := true, stage := .dropping }
  have ends : dropped.step {} false false 20 (.handlerEnded (HandlerOutput.cancelled.ended true)) = some dropping := rfl
  have ended : HandledJob.Step {} "w" claimedMinute false false 20 ⟨dropped, zeros, some lost, none, [], none, []⟩
      (.output .cancelled) _ := .ended rfl ends
  let r : JobRunReport := { jobId := 2, state := .runtimeFailed, outcome := .runtimeError,
                            cancellationReason := some .leaseLost, fatal := true }
  have reports : dropping.step {} false false 20 .awaited = some (dropping.finish (.report r)) := rfl
  have closes : HandledJob.Step {} "w" claimedMinute false false 20
      ⟨dropping, zeros, some lost, some .cancelled, [], none, []⟩ .quiet _ := .act rfl reports
  have run : HandledJob.Run {} "w" claimedMinute (fun _ => True) _ :=
    .step (.step (.step first trivial loses') trivial ended) trivial closes
  refine ⟨_, run, fun goesOn => ?_, r, rfl, rfl⟩
  exact nomatch goesOn.2.2 (.report r) (.inr rfl)

end Cases

end Worker
end Taskq
