import Taskq.Lifecycle.Commands

/-! What a call does to the table of queues: it writes at most one row, and only in these ways. -/
namespace Taskq
open Relational

variable {env : Env} {db db' : Db} {name : String} {command : Command}

/-- The defaults of a queue within the bounds that `ensure_queue` checks. -/
structure Queue.Profiled (q : Queue) : Prop where
  priority : 0 ≤ q.defaultPriority ∧ q.defaultPriority ≤ 1000
  lease : 15 ≤ q.defaultLeaseSeconds ∧ q.defaultLeaseSeconds ≤ 86400
  attempts : 1 ≤ q.defaultMaxAttempts ∧ q.defaultMaxAttempts ≤ 100
  backoff : 1 ≤ q.defaultBackoffBase ∧ q.defaultBackoffBase ≤ q.defaultBackoffCap
  retry : 1 ≤ q.backpressureRetrySeconds

/-- The columns of a queue that its profile sets and that jobs inherit, and the retry of a full queue. -/
def Queue.defaults (q : Queue) : ℤ × ℤ × ℤ × BackoffMode × ℤ × ℤ × ℤ :=
  (q.defaultPriority, q.defaultLeaseSeconds, q.defaultMaxAttempts, q.defaultBackoffMode, q.defaultBackoffBase,
    q.defaultBackoffCap, q.backpressureRetrySeconds)

theorem Queue.Profiled.congr {q q' : Queue} (profiled : q.Profiled) (same : q'.defaults = q.defaults) :
    q'.Profiled := by
  simp only [Queue.defaults, Prod.mk.injEq] at same
  obtain ⟨priority, lease, attempts, -, base, cap, retry⟩ := same
  exact ⟨priority ▸ profiled.priority, lease ▸ profiled.lease, attempts ▸ profiled.attempts,
    by rw [base, cap]; exact profiled.backoff, retry ▸ profiled.retry⟩

/-- What a call may do to the row of a queue: write its profile, pause or resume it, or give it an owner
while nothing in it is live; the first owner of an empty queue needs no pause. -/
inductive QueueEdit (db : Db) (name : String) : Option Queue → Queue → Prop
  | create {q : Queue} (profiled : q.Profiled) (unowned : q.admissionOwnerOid = none) : QueueEdit db name none q
  | profile {old q : Queue} (profiled : q.Profiled) (owner : q.admissionOwnerOid = old.admissionOwnerOid) :
      QueueEdit db name (some old) q
  | pause {old q : Queue} (defaults : q.defaults = old.defaults) (owner : q.admissionOwnerOid = old.admissionOwnerOid) :
      QueueEdit db name (some old) q
  | bind {old q : Queue} (defaults : q.defaults = old.defaults) (bound : q.admissionOwnerOid.isSome)
      (unowned : old.admissionOwnerOid = none) (empty : db.jobs.count (fun _ j => j.queue = name) = 0)
      (free : db.admissions.count (fun _ a => a.queue = name) = 0) : QueueEdit db name (some old) q
  | change {old q : Queue} (defaults : q.defaults = old.defaults) (bound : q.admissionOwnerOid.isSome)
      (paused : old.pausedAt.isSome = true)
      (quiet : db.jobs.count (fun _ j => j.queue = name ∧ j.status.active) = 0)
      (settled : db.admissions.count (fun _ a => a.queue = name ∧ a.state = .reserved) = 0) :
      QueueEdit db name (some old) q

/-- The table after a call. -/
inductive QueueWrite (db : Db) : Table String Queue → Prop
  | same : QueueWrite db db.queues
  | write {name : String} {q : Queue} (edit : QueueEdit db name (db.queues.get? name) q) :
      QueueWrite db (db.queues.put name q)

theorem required_eq_ok {α : Type} {value : Option α} {p : α → Bool} {message : String} {a : α}
    (run : required value p message = .ok a) : value = some a ∧ p a = true := by
  unfold required at run
  split at run
  · split_ifs at run with good
    cases run
    exact ⟨rfl, good⟩
  · cases run

theorem applyProfile_eq_ok {profile : Jsonb} {old q : Queue} (run : applyProfile env profile old = .ok q) :
    q.Profiled ∧ q.admissionOwnerOid = old.admissionOwnerOid := by
  unfold applyProfile at run
  -- the seventeen columns are populated, then checked
  iterate 17 obtain ⟨_, -, run⟩ := seq_eq_ok.mp run
  obtain ⟨priority, hp, run⟩ := seq_eq_ok.mp run
  obtain ⟨lease, hl, run⟩ := seq_eq_ok.mp run
  obtain ⟨attempts, ha, run⟩ := seq_eq_ok.mp run
  obtain ⟨mode, -, run⟩ := seq_eq_ok.mp run
  obtain ⟨base, hb, run⟩ := seq_eq_ok.mp run
  obtain ⟨cap, hc, run⟩ := seq_eq_ok.mp run
  iterate 8 obtain ⟨_, -, run⟩ := seq_eq_ok.mp run
  obtain ⟨retry, hr, run⟩ := seq_eq_ok.mp run
  obtain ⟨_, -, run⟩ := seq_eq_ok.mp run
  cases run
  have priority := (required_eq_ok hp).2
  have lease := (required_eq_ok hl).2
  have attempts := (required_eq_ok ha).2
  have base := (required_eq_ok hb).2
  have cap := (required_eq_ok hc).2
  have retry := (required_eq_ok hr).2
  simp only [decide_eq_true_eq] at priority lease attempts base cap retry
  exact ⟨⟨priority, lease, attempts, ⟨base.1, cap⟩, retry.1⟩, rfl⟩

theorem ensureQueue_queues {name : Option String} {profile : Option Jsonb} {answer : Upsert × Queue}
    (run : ensureQueue env name profile db = .ok (answer, db')) : QueueWrite db db'.queues := by
  simp only [ensureQueue] at run
  split at run
  · cases run
  · simp only [seq_eq_ok] at run
    obtain ⟨-, -, -, -, -, -, run⟩ := run
    split at run
    · rename_i absent
      obtain ⟨q, apply, run⟩ := seq_eq_ok.mp run
      obtain ⟨profiled, owner⟩ := applyProfile_eq_ok apply
      cases run
      exact .write (by rw [absent]; exact .create profiled owner)
    · rename_i old stored
      obtain ⟨q, apply, run⟩ := seq_eq_ok.mp run
      obtain ⟨profiled, owner⟩ := applyProfile_eq_ok apply
      split at run <;> cases run
      · exact .same
      · exact .write (by rw [stored]; exact .profile (profiled.congr rfl) owner)

theorem pauseQueue_queues {reason : Option String} {answer : PauseOutcome}
    (run : pauseQueue env name reason db = .ok (answer, db')) : QueueWrite db db'.queues := by
  unfold pauseQueue at run
  split at run
  · cases run
  · rename_i q stored
    split at run <;> cases run
    · exact .same
    · exact .write (by rw [stored]; exact .pause rfl rfl)

theorem resumeQueue_queues {answer : PauseOutcome} (run : resumeQueue env name db = .ok (answer, db')) :
    QueueWrite db db'.queues := by
  unfold resumeQueue at run
  split at run
  · cases run
  · rename_i q stored
    split at run
    · cases run
      exact .same
    · dsimp only at run
      split at run <;> cases run <;> exact .write (by rw [stored]; exact .pause rfl rfl)

theorem upsertFlow_queues {f : QueueFlow → QueueFlow} {answer : Upsert}
    (run : upsertFlow env name f db = (answer, db')) : db'.queues = db.queues := by
  unfold upsertFlow at run
  split at run <;> cases run <;> rfl

theorem updateBreaker_queues {f : QueueFlow → QueueFlow} (run : updateBreaker env name f db = .ok db') :
    db'.queues = db.queues := by
  unfold updateBreaker at run
  split at run <;> cases run
  rfl

theorem setConcurrencyLimit_queues {key : Option String} {maxRunning : Option ℤ} {answer : Upsert}
    (run : setConcurrencyLimit key maxRunning db = .ok (answer, db')) : db'.queues = db.queues := by
  simp only [setConcurrencyLimit, seq_eq_ok] at run
  obtain ⟨-, -, -, -, run⟩ := run
  split at run
  · cases run
    rfl
  · split at run <;> cases run <;> rfl

theorem setFlowLimit_queues {key : Option String} {rate burst : Option ℤ} {answer : Upsert}
    (run : setFlowLimit key rate burst db = .ok (answer, db')) : db'.queues = db.queues := by
  simp only [setFlowLimit, seq_eq_ok] at run
  obtain ⟨-, -, -, -, -, -, run⟩ := run
  split at run
  · cases run
    rfl
  · split at run <;> cases run <;> rfl

theorem setBreakerConfig_queues {threshold cooldown successes : Option ℤ} {answer : Upsert}
    (run : setBreakerConfig env name threshold cooldown successes db = .ok (answer, db')) :
    db'.queues = db.queues := by
  simp only [setBreakerConfig, seq_eq_ok] at run
  obtain ⟨-, -, -, -, -, -, -, -, run⟩ := run
  exact upsertFlow_queues (Except.ok.inj run)

theorem setPriorityAging_queues {aging : Option ℤ} {answer : Upsert}
    (run : setPriorityAging env name aging db = .ok (answer, db')) : db'.queues = db.queues := by
  simp only [setPriorityAging, seq_eq_ok] at run
  obtain ⟨-, -, -, -, run⟩ := run
  exact upsertFlow_queues (Except.ok.inj run)

theorem setBreakerRate_queues {ratio : Option ℚ} {window volume : Option ℤ}
    (run : setBreakerRate env name ratio window volume db = .ok db') : db'.queues = db.queues := by
  simp only [setBreakerRate, seq_eq_ok] at run
  obtain ⟨-, -, -, -, run⟩ := run
  exact updateBreaker_queues run

theorem setBreakerLatency_queues {threshold window volume : Option ℤ}
    (run : setBreakerLatency env name threshold window volume db = .ok db') : db'.queues = db.queues := by
  simp only [setBreakerLatency, seq_eq_ok] at run
  obtain ⟨-, -, -, -, run⟩ := run
  exact updateBreaker_queues run

theorem tripBreaker_queues (run : tripBreaker env name db = .ok db') : db'.queues = db.queues :=
  updateBreaker_queues run

theorem forceCloseBreaker_queues (run : forceCloseBreaker env name db = .ok db') : db'.queues = db.queues :=
  updateBreaker_queues run

theorem bindQueueAdmissionOwner_queues {role : Option String}
    (run : bindQueueAdmissionOwner env name role db = .ok db') : QueueWrite db db'.queues := by
  simp only [bindQueueAdmissionOwner, seq_eq_ok] at run
  obtain ⟨-, -, owner, -, run⟩ := run
  split at run
  · cases run
  · rename_i q stored
    simp only [seq_eq_ok, ensure_eq_ok] at run
    obtain ⟨-, unowned, -, empty, -, free, -, -, finish⟩ := run
    cases finish
    exact .write (by rw [stored]; exact .bind rfl rfl (by simpa using unowned) empty free)

theorem changeOwner_queues {change : String} {role actor reason : Option String}
    {checkOwner : Option ℕ → ℕ → Call Unit}
    (run : changeOwner env change name role actor reason checkOwner db = .ok db') : QueueWrite db db'.queues := by
  simp only [changeOwner, seq_eq_ok] at run
  obtain ⟨-, -, -, -, owner, -, run⟩ := run
  split at run
  · cases run
  · rename_i q stored
    simp only [checkQuiesced, seq_eq_ok, ensure_eq_ok] at run
    obtain ⟨-, -, -, ⟨-, paused, -, ⟨quiet, settled⟩, -⟩, finish⟩ := run
    cases finish
    exact .write (by rw [stored]; exact .change rfl rfl paused quiet settled)

theorem adoptQueueAdmissionOwner_queues {role actor reason : Option String}
    (run : adoptQueueAdmissionOwner env name role actor reason db = .ok db') : QueueWrite db db'.queues :=
  changeOwner_queues run

theorem rotateQueueAdmissionOwner_queues {role actor reason : Option String}
    (run : rotateQueueAdmissionOwner env name role actor reason db = .ok db') : QueueWrite db db'.queues :=
  changeOwner_queues run

/-- A call writes at most one row of a queue. -/
theorem Command.exec_queues (run : command.exec env db = .ok db') : QueueWrite db db'.queues := by
  have kept := (Command.exec_effect run).2.2
  have still (same : db'.queues = db.queues) : QueueWrite db db'.queues := same ▸ .same
  cases command with
  | ensureQueue => exact (map_snd_eq_ok.mp run).elim fun _ run => ensureQueue_queues run
  | pauseQueue => exact (map_snd_eq_ok.mp run).elim fun _ run => pauseQueue_queues run
  | resumeQueue => exact (map_snd_eq_ok.mp run).elim fun _ run => resumeQueue_queues run
  | setConcurrencyLimit => exact (map_snd_eq_ok.mp run).elim fun _ run => still (setConcurrencyLimit_queues run)
  | setFlowLimit => exact (map_snd_eq_ok.mp run).elim fun _ run => still (setFlowLimit_queues run)
  | setBreakerConfig => exact (map_snd_eq_ok.mp run).elim fun _ run => still (setBreakerConfig_queues run)
  | setPriorityAging => exact (map_snd_eq_ok.mp run).elim fun _ run => still (setPriorityAging_queues run)
  | setBreakerRate => exact still (setBreakerRate_queues run)
  | setBreakerLatency => exact still (setBreakerLatency_queues run)
  | tripBreaker => exact still (tripBreaker_queues run)
  | forceCloseBreaker => exact still (forceCloseBreaker_queues run)
  | bindQueueAdmissionOwner => exact bindQueueAdmissionOwner_queues run
  | adoptQueueAdmissionOwner => exact adoptQueueAdmissionOwner_queues run
  | rotateQueueAdmissionOwner => exact rotateQueueAdmissionOwner_queues run
  | putSchedule | putManagedSchedule | setScheduleState | retireSchedule | setScheduleSmear | claimSchedules
  | scheduleError => exact still kept.1
  | fireSchedule => exact still kept
  | reserveAdmission | finishAdmission | cancelAdmission | janitor => exact still kept.2
  | _ => exact still kept.2.1

end Taskq
