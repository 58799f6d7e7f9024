import Taskq.Lifecycle.Writes

/-! The paths of the worker's verbs: what a heartbeat, a settlement and an expired lease may do. -/
namespace Taskq
open Relational

/-- Changes of these kinds to one job. -/
def changesOf (id : Uuid) (ks : List Change) : Set Label := {l | ∃ k ∈ ks, l = .change id k}

/-- Cancelling blocked children of a job that ended badly. -/
def dependents : Set Label := {l | ∃ child, l = .change child (.withdraw true .blocked)}

/-- Satisfying dependencies on a job that succeeded. -/
def promotions : Set Label := {l | ∃ child, l = .change child .promote ∨ l = .dropEdge child}

/-- Reclaiming the expired leases of these jobs. -/
def expiries (late : Set Uuid) : Set Label :=
  {l | ∃ id ∈ late, l = .change id .expireRetry ∨ l = .change id .expireBury ∨ l = .change id .expireCancel}

theorem mem_changesOf {id : Uuid} {ks : List Change} {k : Change} :
    Label.change id k ∈ changesOf id ks ↔ k ∈ ks := by
  simp [changesOf]

variable {env : Env} {S : Set Label} {id : Uuid} {db db' : Db}

section Dependents

variable {reason eventType : String} {actor message : Option String} {data : Option Jsonb}
  {jobId : Uuid} {attemptId : Option Uuid}

theorem insertEvent_path (env : Env) (jobId : Uuid) (attemptId : Option Uuid) (eventType : String)
    (actor message : Option String) (data : Option Jsonb) (db : Db) :
    Path env S db (insertEvent env jobId attemptId eventType actor message data db) :=
  .aside rfl rfl

theorem cancelDependent_path {child : Uuid} {done : Bool}
    (run : cancelDependent env reason child db = .ok (done, db')) : Path env dependents db db' := by
  unfold cancelDependent at run
  split at run
  · cases run
    exact .refl _
  · rename_i job found
    obtain ⟨stored, blocked⟩ := Option.filter_eq_some_iff.mp found
    obtain ⟨written, write, run⟩ := seq_eq_ok.mp run
    cases run
    refine Path.change (k := .withdraw true job.life.status) (t := written.attempts) write rfl rfl
      stored rfl (.withdraw job.life true job.life.cancelRequested (.inl ?_) id) (by simp) ?_ rfl rfl ?_
    · exact of_decide_eq_true blocked
    · obtain ⟨_, _, _, _, _, -, -, -, rfl⟩ := writeJob_frame write
      exact SameLedger.refl _
    · exact ⟨child, by rw [show job.life.status = .blocked from of_decide_eq_true blocked]⟩

theorem cancelDependentsLoop_path {children : List Uuid} {n : ℤ}
    (run : cancelDependentsLoop env reason children db = .ok (n, db')) : Path env dependents db db' := by
  induction children generalizing db n with
  | nil =>
    cases run
    exact .refl _
  | cons child children ih =>
    simp only [cancelDependentsLoop, seq_eq_ok] at run
    obtain ⟨⟨done, next⟩, first, ⟨m, last⟩, rest, finish⟩ := run
    cases finish
    exact (cancelDependent_path first).trans (ih rest)

theorem cancelDependents_path {limit : Option ℤ} {n : ℤ}
    (run : cancelDependents env id reason limit db = .ok (n, db')) : Path env dependents db db' := by
  simp only [cancelDependents, seq_eq_ok] at run
  obtain ⟨-, -, loop⟩ := run
  exact cancelDependentsLoop_path loop

theorem emitEvent_path
    (run : emitEvent env jobId attemptId eventType actor message data db = .ok db') :
    Path env dependents db db' := by
  have event := insertEvent_path (S := dependents) env jobId attemptId eventType actor message data db
  unfold emitEvent at run
  split_ifs at run
  · obtain ⟨⟨n, last⟩, cascade, finish⟩ := seq_eq_ok.mp run
    cases finish
    exact event.trans (cancelDependents_path cascade)
  · obtain ⟨⟨n, last⟩, cascade, finish⟩ := seq_eq_ok.mp run
    cases finish
    exact event.trans (cancelDependents_path cascade)
  · cases run
    exact event

/-- An event of another type is recorded and does nothing else. -/
theorem emitEvent_quiet (failed : eventType ≠ "failed") (cancelled : eventType ≠ "cancelled") :
    emitEvent env jobId attemptId eventType actor message data db =
      .ok (insertEvent env jobId attemptId eventType actor message data db) := by
  simp [emitEvent, failed, cancelled]

end Dependents

section Heartbeat

theorem runningJob_eq_some {core : Core} {jobId attemptId : Uuid} {job : Job} :
    runningJob core jobId attemptId = some job ↔
      core.jobs.get? jobId = some job ∧ job.status = .running ∧
        job.currentAttemptId = some attemptId := by
  simp [runningJob, Option.filter_eq_some_iff]

theorem heartbeat_path {jobId attemptId : Uuid} {worker : Option String} {lease : Option ℤ}
    {progress stats : Option Jsonb} {answer : BeatResult}
    (run : heartbeat env jobId attemptId worker lease progress stats db = .ok (answer, db')) :
    db' = db ∨ (∃ job, runningJob db.toCore jobId attemptId = some job) ∧
      Path env (changesOf jobId [.beat]) db db' := by
  simp only [heartbeat, seq_eq_ok] at run
  obtain ⟨-, -, -, -, -, -, run⟩ := run
  split at run
  · cases run
    exact .inl rfl
  · rename_i job found
    obtain ⟨held, -⟩ := Option.filter_eq_some_iff.mp found
    obtain ⟨stored, running, current⟩ := runningJob_eq_some.mp held
    obtain ⟨written, write, run⟩ := seq_eq_ok.mp run
    cases run
    refine .inr ⟨⟨job, held⟩, ?_⟩
    split_ifs with reported
    · refine .change (k := .beat) write rfl rfl stored rfl (.beat job.life running) (by simp) ?_
        (updateAttempt_toCore attemptId _ written) (updateAttempt_surroundings attemptId _ written)
        (by simp [changesOf])
      rw [← writeJob_attempts write]
      change SameLedger _ _
      exact updateAttempt_sameLedger (fun _ => by rfl) written
    · exact .rewrite write stored rfl (.beat job.life running) (by simp) rfl rfl (by simp [changesOf])

end Heartbeat

section Settle

variable {jobId attemptId : Uuid} {worker message : Option String} {job : Job}

/-- The changes that a settlement has a choice of: its own, unless a cancellation is pending. -/
def settling (own : List Change) (job : JobRow) : List Change :=
  if job.cancelRequestedAt.isSome then [.cancelRunning] else own

/-- One change of the job, and what follows for its dependents. -/
def Ends (env : Env) (jobId : Uuid) (k : Change) (db db' : Db) : Prop :=
  ∃ mid, Rewrites env jobId k db mid ∧ Path env dependents mid db'

theorem Ends.path {k : Change} {ks : List Change} {db db' : Db} (ends : Ends env jobId k db db')
    (member : k ∈ ks) : Path env (changesOf jobId ks ∪ dependents) db db' := by
  obtain ⟨mid, rewrites, cascade⟩ := ends
  exact (rewrites.path (.inl ⟨k, member, rfl⟩)).trans (cascade.mono Set.subset_union_right)

/-- A settlement of an attempt that does not run the job answers from the ledger and changes
nothing; any other one settles a running job. -/
def Settles (env : Env) (own : List Change) (jobId attemptId : Uuid) (db db' : Db) : Prop :=
  (runningJob db.toCore jobId attemptId = none ∧ db' = db) ∨
    ∃ job, runningJob db.toCore jobId attemptId = some job ∧
      ∃ k ∈ settling own job.toJobRow, Ends env jobId k db db'

/-- A pending cancellation settles the job as cancelled. -/
theorem Settles.cancelled {own : List Change} {db db' : Db}
    (held : runningJob db.toCore jobId attemptId = some job)
    (asked : job.cancelRequestedAt.isSome = true) (ends : Ends env jobId .cancelRunning db db') :
    Settles env own jobId attemptId db db' :=
  .inr ⟨job, held, .cancelRunning, by simp [settling, asked], ends⟩

theorem Settles.own {own : List Change} {k : Change} {db db' : Db}
    (held : runningJob db.toCore jobId attemptId = some job)
    (unasked : job.cancelRequestedAt.isSome = false) (member : k ∈ own)
    (ends : Ends env jobId k db db') : Settles env own jobId attemptId db db' :=
  .inr ⟨job, held, k, by simpa [settling, unasked] using member, ends⟩

theorem settleCancelled_ends {row : JobRow → JobRow} {ledger : Attempt → Attempt}
    {answer : SettleResult}
    (run : settleCancelled env jobId attemptId worker message row ledger job db = .ok (answer, db'))
    (held : runningJob db.toCore jobId attemptId = some job)
    (identity : ∀ r, (row r).identity = r.identity) (life : ∀ r, (row r).life = r.life)
    (entry : ∀ a, (ledger a).entry = a.entry) : Ends env jobId .cancelRunning db db' := by
  obtain ⟨stored, running, current⟩ := runningJob_eq_some.mp held
  simp only [settleCancelled, seq_eq_ok] at run
  obtain ⟨written, write, last, event, finish⟩ := run
  cases finish
  have attempts := writeJob_attempts write
  refine ⟨_, .of_write write rfl rfl stored ?_ ?_ (by simp) ⟨attemptId, current, ?_⟩
    (closeAttempt_toCore _ _ _) (closeAttempt_surroundings _ _ _), emitEvent_path event⟩
  · rw [identity]
    rfl
  · rw [life]
    exact .cancelRunning job.life job.life.expiryStreak running (.inl rfl)
  · rw [← attempts]
    exact closeAttempt_closes (fun a => (entry _).trans rfl) written

variable {error : Option String} {retryable : Option Bool} {retryAfter : Option ℤ}
  {progress : Option Jsonb} {answer : SettleResult} {db₀ : Db} {t₀ : Table Uuid Attempt}

/-- What `fail_job` may do to a job that nobody asked to stop. -/
def failing (retryable : Option Bool) : List Change := [.retry, .bury retryable]

theorem scheduleRetry_ends
    (run : scheduleRetry env jobId attemptId worker error retryAfter progress job db₀ =
      .ok (answer, db'))
    (before : db₀.toCore = { db.toCore with attempts := t₀ }) (calm : db₀.surroundings = db.surroundings)
    (closed : ClosesEntry attemptId .failed db.attempts t₀)
    (held : runningJob db.toCore jobId attemptId = some job)
    (unasked : job.cancelRequestedAt.isSome = false)
    (room : job.failureCount + 1 < job.maxAttempts) : Ends env jobId .retry db db' := by
  obtain ⟨stored, running, current⟩ := runningJob_eq_some.mp held
  simp only [scheduleRetry, seq_eq_ok] at run
  obtain ⟨delay, -, written, write, last, event, finish⟩ := run
  cases finish
  have attempts : written.attempts = t₀ := (writeJob_attempts write).trans (by rw [before])
  refine ⟨_, .of_write write before calm stored rfl (.retry job.life running unasked room) (by simp)
    ⟨attemptId, current, ?_⟩ (updateAttempt_toCore _ _ _) (updateAttempt_surroundings _ _ _),
    emitEvent_path event⟩
  refine closed.then_same (attempts ▸ ?_)
  exact updateAttempt_sameLedger (fun _ => by rfl) written

theorem buryJob_ends
    (run : buryJob env jobId attemptId worker error retryable progress job db₀ = .ok (answer, db'))
    (before : db₀.toCore = { db.toCore with attempts := t₀ }) (calm : db₀.surroundings = db.surroundings)
    (closed : ClosesEntry attemptId .failed db.attempts t₀)
    (held : runningJob db.toCore jobId attemptId = some job)
    (unasked : job.cancelRequestedAt.isSome = false)
    (last : job.life.spent job.maxAttempts retryable) : Ends env jobId (.bury retryable) db db' := by
  obtain ⟨stored, running, current⟩ := runningJob_eq_some.mp held
  simp only [buryJob, seq_eq_ok] at run
  obtain ⟨written, write, final, event, finish⟩ := run
  cases finish
  have attempts : written.attempts = t₀ := (writeJob_attempts write).trans (by rw [before])
  refine ⟨_, .of_write write before calm stored rfl (.bury job.life retryable running unasked last)
    (by simp) ⟨attemptId, current, ?_⟩ (updateAttempt_toCore _ _ _) (updateAttempt_surroundings _ _ _),
    emitEvent_path event⟩
  refine closed.then_same (attempts ▸ ?_)
  exact updateAttempt_sameLedger (fun _ => by rfl) written

theorem failJob_settles {stats : Option Jsonb}
    (run : failJob env jobId attemptId worker error retryable retryAfter progress stats db =
      .ok (answer, db')) :
    Settles env (failing retryable) jobId attemptId db db' := by
  simp only [failJob, seq_eq_ok] at run
  obtain ⟨-, -, -, -, run⟩ := run
  split at run
  · rename_i missing
    cases run
    exact .inl ⟨missing, rfl⟩
  · rename_i job held
    split at run
    · rename_i asked
      exact .cancelled held asked
        (settleCancelled_ends run held (fun _ => rfl) (fun _ => rfl) (fun _ => rfl))
    · rename_i asked
      obtain ⟨-, -, run⟩ := seq_eq_ok.mp run
      have closed : ClosesEntry attemptId .failed db.attempts (closeAttempt attemptId (fun a => { a with
          status := .failed, finishedAt := some env.now, error := storedText error
          stats := stats <|> a.stats }) db).attempts := closeAttempt_closes (fun _ => rfl) db
      have unasked := eq_false_of_ne_true asked
      split_ifs at run with again
      · exact .own held unasked (by simp [failing]) (scheduleRetry_ends run
          (closeAttempt_toCore _ _ _) (closeAttempt_surroundings _ _ _) closed held unasked again.2)
      · refine .own held unasked (k := .bury retryable) (by simp [failing]) (buryJob_ends run
          (closeAttempt_toCore _ _ _) (closeAttempt_surroundings _ _ _) closed held unasked ?_)
        by_contra spare
        simp only [Life.spent, not_or, not_not, not_le] at spare
        exact again spare

theorem snoozeJob_settles {delay : Option ℤ} {reason : Option String}
    (run : snoozeJob env jobId attemptId worker delay reason progress db = .ok (answer, db')) :
    Settles env [.snooze] jobId attemptId db db' := by
  simp only [snoozeJob, seq_eq_ok] at run
  obtain ⟨-, -, -, -, -, -, run⟩ := run
  split at run
  · rename_i missing
    cases run
    exact .inl ⟨missing, rfl⟩
  · rename_i job held
    obtain ⟨stored, running, current⟩ := runningJob_eq_some.mp held
    obtain ⟨written, write, run⟩ := seq_eq_ok.mp run
    have attempts := writeJob_attempts write
    by_cases asked : job.cancelRequestedAt.isSome = true
    · simp only [asked, if_true, seq_eq_ok] at run write
      obtain ⟨last, event, finish⟩ := run
      cases finish
      refine .cancelled held asked ⟨_, .of_write write rfl rfl stored rfl
        (.cancelRunning job.life 0 running (.inr rfl)) (by simp) ⟨attemptId, current, ?_⟩
        (closeAttempt_toCore _ _ _) (closeAttempt_surroundings _ _ _), emitEvent_path event⟩
      exact attempts ▸ closeAttempt_closes (fun _ => by rfl) written
    · simp only [asked, Bool.false_eq_true, if_false, seq_eq_ok] at run write
      obtain ⟨last, event, finish⟩ := run
      cases finish
      refine .own held (eq_false_of_ne_true asked) (List.mem_singleton.mpr rfl) ⟨_, .of_write write rfl
        rfl stored rfl (.snooze job.life running (eq_false_of_ne_true asked)) (by simp)
        ⟨attemptId, current, ?_⟩ (closeAttempt_toCore _ _ _) (closeAttempt_surroundings _ _ _),
        emitEvent_path event⟩
      exact attempts ▸ closeAttempt_closes (fun _ => by rfl) written

theorem releaseJob_settles {cause : Option String} {delay : Option ℤ}
    (run : releaseJob env jobId attemptId worker cause delay progress db = .ok (answer, db')) :
    Settles env [.release] jobId attemptId db db' := by
  simp only [releaseJob, seq_eq_ok] at run
  obtain ⟨-, -, -, -, run⟩ := run
  split at run
  · rename_i missing
    cases run
    exact .inl ⟨missing, rfl⟩
  · rename_i job held
    obtain ⟨stored, running, current⟩ := runningJob_eq_some.mp held
    split_ifs at run with asked
    · exact .cancelled held asked
        (settleCancelled_ends run held (fun _ => rfl) (fun _ => rfl) (fun _ => rfl))
    · simp only [seq_eq_ok] at run
      obtain ⟨written, write, last, event, finish⟩ := run
      cases finish
      have attempts := writeJob_attempts write
      refine .own held (eq_false_of_ne_true asked) (List.mem_singleton.mpr rfl) ⟨_, .of_write write rfl
        rfl stored rfl (.release job.life running (eq_false_of_ne_true asked)) (by simp)
        ⟨attemptId, current, ?_⟩ (closeAttempt_toCore _ _ _) (closeAttempt_surroundings _ _ _),
        emitEvent_path event⟩
      exact attempts ▸ closeAttempt_closes (fun _ => by rfl) written

theorem cancelRunningJob_settles {reason : Option String}
    (run : cancelRunningJob env jobId attemptId worker reason db = .ok (answer, db')) :
    Settles env [.cancelRunning] jobId attemptId db db' := by
  unfold cancelRunningJob at run
  split at run
  · rename_i missing
    cases run
    exact .inl ⟨missing, rfl⟩
  · rename_i job held
    exact .inr ⟨job, held, .cancelRunning, by simp [settling],
      settleCancelled_ends run held (fun _ => rfl) (fun _ => rfl) (fun _ => rfl)⟩

end Settle

end Taskq
