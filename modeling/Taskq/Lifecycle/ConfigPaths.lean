import Taskq.Lifecycle.Calendar

/-! The paths of configuration: no job, no workflow and no schedule's cursor changes. -/
namespace Taskq
open Relational

variable {env : Env} {db db' : Db} {queue : String}

/-- Only the tables of queues and limits change. -/
def Configures (db db' : Db) : Prop :=
  ∃ queues queueFlow concurrencyLimits flowLimits, db' = { db with
    queues := queues, queueFlow := queueFlow, concurrencyLimits := concurrencyLimits
    flowLimits := flowLimits }

namespace Configures

theorem toCore (conf : Configures db db') : db'.toCore = db.toCore := by
  obtain ⟨_, _, _, _, rfl⟩ := conf
  rfl

theorem scheduling (conf : Configures db db') : db'.scheduling = db.scheduling := by
  obtain ⟨_, _, _, _, rfl⟩ := conf
  rfl

end Configures

/-- The flow row of a queue, as an upsert meets it. -/
def Db.flowOf (env : Env) (db : Db) (queue : String) : QueueFlow :=
  (db.queueFlow.get? queue).getD (.fresh env.now)

/-- What configuration may write into the flow row of a queue. -/
inductive FlowEdit (env : Env) (row : QueueFlow) : QueueFlow → Prop
  | breaker {threshold cooldown successes : Option ℤ} (armed : threshold.all (0 < ·))
      (cools : cooldown.any fun n => 1 ≤ n ∧ n ≤ 86400)
      (probes : successes.any fun n => 1 ≤ n ∧ n ≤ 100) :
      FlowEdit env row { row with
        breakerFailureThreshold := threshold, breakerCooldownSeconds := cooldown
        breakerHalfOpenSuccesses := successes, updatedAt := env.now }
  | rate (config : Option BreakerRate) : FlowEdit env row { row with
      breakerRate := config, breakerWindowStart := none, breakerWindowFailures := 0
      breakerWindowSuccesses := 0, updatedAt := env.now }
  | latency (config : Option BreakerLatency) : FlowEdit env row { row with
      breakerLatency := config, breakerLatencyWindowStart := none, breakerLatencySumMs := 0
      breakerLatencyCount := 0, updatedAt := env.now }
  | trip : FlowEdit env row { row.withoutWindows with
      breakerState := .opened, breakerTrippedAt := some env.now, breakerProbeSuccesses := 0
      breakerOpenedTotal := row.breakerOpenedTotal + 1, updatedAt := env.now }
  | close : FlowEdit env row { row.withoutWindows with
      breakerState := .closed, breakerFailureStreak := 0, breakerProbeSuccesses := 0
      rampStartedAt := some env.now, updatedAt := env.now }
  | aging {seconds : Option ℤ} (positive : seconds.all (0 < ·) = true) : FlowEdit env row { row with
      priorityAgingSeconds := seconds, updatedAt := env.now }
  | ramp : FlowEdit env row { row with rampStartedAt := some env.now, updatedAt := env.now }

/-- What one configuration verb writes. -/
inductive Setting (env : Env) (db : Db) : Db → Prop
  | queues (queues : Table String Queue) : Setting env db { db with queues := queues }
  | slots (key : String) {limit : ℤ} (bound : 0 ≤ limit) :
      Setting env db { db with concurrencyLimits := db.concurrencyLimits.put key limit }
  | rates (key : String) {limit : FlowLimit} (rated : 0 < limit.ratePerMinute) :
      Setting env db { db with flowLimits := db.flowLimits.put key limit }
  | flow (queues : Table String Queue) {queue : String} {row : QueueFlow}
      (edit : FlowEdit env (db.flowOf env queue) row) :
      Setting env db { db with queues := queues, queueFlow := db.queueFlow.put queue row }

namespace Setting

theorem refl (db : Db) : Setting env db db := .queues _

theorem configures (setting : Setting env db db') : Configures db db' := by
  cases setting <;> exact ⟨_, _, _, _, rfl⟩

end Setting

section Queues

theorem ensureQueue_setting {name : Option String} {profile : Option Jsonb} {answer : Upsert × Queue}
    (run : ensureQueue env name profile db = .ok (answer, db')) : Setting env db db' := by
  simp only [ensureQueue] at run
  split at run
  · cases run
  · simp only [seq_eq_ok] at run
    obtain ⟨-, -, -, -, -, -, run⟩ := run
    split at run <;> obtain ⟨q, -, run⟩ := seq_eq_ok.mp run
    · cases run
      exact .queues _
    · split at run <;> cases run
      · exact .refl _
      · exact .queues _

theorem pauseQueue_setting {reason : Option String} {answer : PauseOutcome}
    (run : pauseQueue env queue reason db = .ok (answer, db')) : Setting env db db' := by
  unfold pauseQueue at run
  split at run
  · cases run
  · split at run <;> cases run
    · exact .refl _
    · exact .queues _

theorem resumeQueue_setting {answer : PauseOutcome}
    (run : resumeQueue env queue db = .ok (answer, db')) : Setting env db db' := by
  unfold resumeQueue at run
  split at run
  · cases run
  · split at run
    · cases run
      exact .refl _
    · dsimp only at run
      split at run <;> cases run
      · exact .queues _
      · exact .flow _ .ramp

theorem setConcurrencyLimit_setting {key : Option String} {maxRunning : Option ℤ} {answer : Upsert}
    (run : setConcurrencyLimit key maxRunning db = .ok (answer, db')) : Setting env db db' := by
  simp only [setConcurrencyLimit, seq_eq_ok, ensure_eq_ok] at run
  obtain ⟨-, -, -, bound, run⟩ := run
  have bound : 0 ≤ maxRunning.getD 0 := by cases maxRunning <;> simp_all
  split at run
  · cases run
    exact .slots _ bound
  · split at run <;> cases run
    · exact .refl _
    · exact .slots _ bound

theorem setFlowLimit_setting {key : Option String} {rate burst : Option ℤ} {answer : Upsert}
    (run : setFlowLimit key rate burst db = .ok (answer, db')) : Setting env db db' := by
  simp only [setFlowLimit, seq_eq_ok, ensure_eq_ok] at run
  obtain ⟨-, -, -, rated, -, -, run⟩ := run
  have rated : 0 < (⟨rate.getD 0, burst⟩ : FlowLimit).ratePerMinute := by cases rate <;> simp_all
  split at run
  · cases run
    exact .rates _ rated
  · split at run <;> cases run
    · exact .refl _
    · exact .rates _ rated

end Queues

section Breakers

/-- An upsert of the flow row writes one row, whether there was one or not. -/
theorem upsertFlow_setting {f : QueueFlow → QueueFlow} {answer : Upsert}
    (run : upsertFlow env queue f db = (answer, db'))
    (edit : FlowEdit env (db.flowOf env queue) { f (db.flowOf env queue) with updatedAt := env.now })
    (keeps : ∀ row, (f row).updatedAt = row.updatedAt) : Setting env db db' := by
  unfold upsertFlow at run
  split at run
  · rename_i missing
    cases run
    have fresh : db.flowOf env queue = .fresh env.now := by simp [Db.flowOf, missing]
    rw [show f (.fresh env.now) = { f (db.flowOf env queue) with updatedAt := env.now } by
      rw [fresh]
      exact congrArg (fun now => { f (.fresh env.now) with updatedAt := now }) (keeps (.fresh env.now))]
    exact .flow db.queues edit
  · rename_i flow found
    cases run
    have same : db.flowOf env queue = flow := by simp [Db.flowOf, found]
    rw [same] at edit
    exact .flow db.queues (same.symm ▸ edit)

theorem updateBreaker_setting {f : QueueFlow → QueueFlow}
    (run : updateBreaker env queue f db = .ok db')
    (edit : ∀ row, FlowEdit env row { f row with updatedAt := env.now }) : Setting env db db' := by
  unfold updateBreaker at run
  split at run
  · cases run
  · rename_i flow found
    cases run
    have same : db.flowOf env queue = flow := by simp [Db.flowOf, (Option.filter_eq_some_iff.mp found).1]
    exact .flow db.queues (same ▸ edit flow)

theorem setBreakerConfig_setting {threshold cooldown successes : Option ℤ} {answer : Upsert}
    (run : setBreakerConfig env queue threshold cooldown successes db = .ok (answer, db')) :
    Setting env db db' := by
  simp only [setBreakerConfig, seq_eq_ok, ensure_eq_ok] at run
  obtain ⟨-, -, -, armed, -, cools, -, probes, run⟩ := run
  exact upsertFlow_setting (Except.ok.inj run) (.breaker armed cools probes) fun _ => rfl

theorem setBreakerRate_setting {ratio : Option ℚ} {window volume : Option ℤ}
    (run : setBreakerRate env queue ratio window volume db = .ok db') : Setting env db db' := by
  simp only [setBreakerRate, seq_eq_ok] at run
  obtain ⟨-, -, -, -, update⟩ := run
  exact updateBreaker_setting update fun _ => .rate _

theorem setBreakerLatency_setting {threshold window volume : Option ℤ}
    (run : setBreakerLatency env queue threshold window volume db = .ok db') : Setting env db db' := by
  simp only [setBreakerLatency, seq_eq_ok] at run
  obtain ⟨-, -, -, -, update⟩ := run
  exact updateBreaker_setting update fun _ => .latency _

theorem tripBreaker_setting (run : tripBreaker env queue db = .ok db') : Setting env db db' :=
  updateBreaker_setting run fun _ => .trip

theorem forceCloseBreaker_setting (run : forceCloseBreaker env queue db = .ok db') : Setting env db db' :=
  updateBreaker_setting run fun _ => .close

theorem setPriorityAging_setting {aging : Option ℤ} {answer : Upsert}
    (run : setPriorityAging env queue aging db = .ok (answer, db')) : Setting env db db' := by
  simp only [setPriorityAging, seq_eq_ok] at run
  obtain ⟨_, -, _, positive, run⟩ := run
  exact upsertFlow_setting (Except.ok.inj run) (.aging (ensure_eq_ok.mp positive)) fun _ => rfl

end Breakers

section Owners

/-- A queue and the schedules that target it get an owner. -/
def Assigns (db db' : Db) : Prop :=
  ∃ queues, ∃ f : Schedule → Schedule, (∀ s, (f s).cursor = s.cursor ∧ (f s).name = s.name ∧
    (f s).target = s.target) ∧ db' = { db with
    queues := queues
    scheduling := { db.scheduling with schedules := db.scheduling.schedules.mapRows f } }

theorem Assigns.toCore (assigns : Assigns db db') : db'.toCore = db.toCore := by
  obtain ⟨_, _, -, rfl⟩ := assigns
  rfl

theorem Assigns.logs (assigns : Assigns db db') : Logs env db db' := by
  obtain ⟨_, _, -, rfl⟩ := assigns
  exact .aside rfl rfl

theorem Assigns.keeps (assigns : Assigns db db') : db'.admissions = db.admissions ∧
    db'.scheduling.occurrences = db.scheduling.occurrences := by
  obtain ⟨_, _, -, rfl⟩ := assigns
  exact ⟨rfl, rfl⟩

theorem Assigns.calendar {now : Time} {S : Set (Uuid × CursorChange)} (assigns : Assigns db db') :
    CalendarSteps now S db.calendar db'.calendar := by
  obtain ⟨_, _, kept, rfl⟩ := assigns
  exact .quiet (.retag fun s => (kept s).1)

theorem Assigns.writes {site : Site} (assigns : Assigns db db') :
    ScheduleWrites site db.scheduling.schedules db'.scheduling.schedules := by
  obtain ⟨_, _, kept, rfl⟩ := assigns
  exact .single (.retag fun s => (kept s).2)

theorem assignOwner_assigns (env : Env) (queue : String) (q : Queue) (owner : ℕ) (db : Db) :
    Assigns db (assignOwner env queue q owner db) := by
  refine ⟨_, _, fun s => ?_, rfl⟩
  split_ifs <;> exact ⟨rfl, rfl, rfl⟩

theorem bindQueueAdmissionOwner_assigns {role : Option String}
    (run : bindQueueAdmissionOwner env queue role db = .ok db') : Assigns db db' := by
  simp only [bindQueueAdmissionOwner, seq_eq_ok] at run
  obtain ⟨-, -, owner, -, run⟩ := run
  split at run
  · cases run
  · simp only [seq_eq_ok] at run
    obtain ⟨-, -, -, -, -, -, -, -, finish⟩ := run
    cases finish
    exact assignOwner_assigns env queue _ owner db

theorem changeOwner_assigns {change : String} {role actor reason : Option String}
    {checkOwner : Option ℕ → ℕ → Call Unit}
    (run : changeOwner env change queue role actor reason checkOwner db = .ok db') : Assigns db db' := by
  simp only [changeOwner, seq_eq_ok] at run
  obtain ⟨-, -, -, -, owner, -, run⟩ := run
  split at run
  · cases run
  · simp only [seq_eq_ok] at run
    obtain ⟨-, -, -, -, finish⟩ := run
    cases finish
    exact assignOwner_assigns env queue _ owner db

theorem adoptQueueAdmissionOwner_assigns {role actor reason : Option String}
    (run : adoptQueueAdmissionOwner env queue role actor reason db = .ok db') : Assigns db db' :=
  changeOwner_assigns run

theorem rotateQueueAdmissionOwner_assigns {role actor reason : Option String}
    (run : rotateQueueAdmissionOwner env queue role actor reason db = .ok db') : Assigns db db' :=
  changeOwner_assigns run

end Owners

end Taskq
