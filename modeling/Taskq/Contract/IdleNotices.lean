import Taskq.Contract.Counters
import Taskq.Lifecycle.BulkPaths
import Taskq.Lifecycle.CompletionPaths

/-! The notifications of a queue in the idle mode: whether an insert announces its job follows from the live
counters, which count every job that waits, claimable or not. -/
namespace Taskq
open Relational

variable {env : Env} {db db' : Db} {queue : String} {q : Queue} {id : Uuid} {job : Job}

/-- A job that a worker may claim now. -/
def JobRow.Due (now : Time) (r : JobRow) : Prop := r.status = .queued ∧ r.scheduledAt ≤ now

/-- Between the two states the workers of the queue were notified. -/
def Announces (queue : String) (db db' : Db) : Prop :=
  ∃ more, db'.notices = db.notices ++ more ∧ ("taskq_" ++ queue, "") ∈ more

/-- No job of the queue is queued or blocked. -/
def Unoccupied (queue : String) (db : Db) : Prop :=
  ∀ id job, db.jobs.get? id = some job → job.queue = queue → job.status ≠ .queued ∧ job.status ≠ .blocked

theorem announces_notifyQueue (same : db'.notices = db.notices) : Announces queue db (notifyQueue queue db') :=
  ⟨_, congrArg (· ++ _) same, List.mem_singleton_self _⟩

theorem not_announces (same : db'.notices = db.notices) : ¬Announces queue db db' := by
  rintro ⟨more, grown, member⟩
  obtain rfl : more = [] := List.self_eq_append_right.mp (same.symm.trans grown)
  cases member

section Single

variable {a : EnqueueArgs}

theorem jobsIn_eq_zero {status : JobStatus} : jobsIn db.jobs queue status = 0 ↔
    ∀ id job, db.jobs.get? id = some job → job.queue = queue → job.status ≠ status := by
  simp only [jobsIn, Table.count_eq_zero, decide_eq_false_iff_not, not_and]

/-- Counters that tell the truth show a depth of zero on an unoccupied queue only. -/
theorem CountersTrue.queueDepth (ok : CountersTrue db) (queue : String) :
    Taskq.queueDepth db queue = jobsIn db.jobs queue .blocked + jobsIn db.jobs queue .queued := by
  rw [← ok queue .blocked rfl, ← ok queue .queued rfl, Db.countersOf, Taskq.queueDepth]
  cases db.queueCounters.get? queue <;> rfl

theorem unoccupied_iff (queue : String) (db : Db) :
    Unoccupied queue db ↔ jobsIn db.jobs queue .blocked + jobsIn db.jobs queue .queued = 0 := by
  rw [Nat.add_eq_zero_iff, jobsIn_eq_zero, jobsIn_eq_zero]
  constructor
  · intro free
    exact ⟨fun id job here mine => (free id job here mine).2, fun id job here mine => (free id job here mine).1⟩
  · rintro ⟨blocked, queued⟩ id job here mine
    exact ⟨queued id job here mine, blocked id job here mine⟩

/-- After the insert of a queued job the depth is one exactly when the queue was unoccupied. -/
theorem queueDepth_inserted {new : JobRow} {inserted : Db} (ok : CountersTrue db)
    (run : insertJob env id new db = .ok (some inserted)) (queued : new.status = .queued) :
    queueDepth inserted new.queue ≤ 1 ↔ Unoccupied new.queue db := by
  have counted := ((JobStatement.insert run).counters ok).1.queueDepth new.queue
  obtain ⟨job, rfl, fresh, jobs, -⟩ := insertJob_counters run
  have blocked : (jobsIn inserted.jobs job.queue .blocked : ℤ) = jobsIn db.jobs job.queue .blocked := by
    rw [jobs, jobsIn_insert fresh, decide_eq_false (by simp [queued]), one_false, add_zero]
  have more : (jobsIn inserted.jobs job.queue .queued : ℤ) = jobsIn db.jobs job.queue .queued + 1 := by
    rw [jobs, jobsIn_insert fresh, decide_eq_true ⟨rfl, queued⟩]
    rfl
  rw [counted, unoccupied_iff, blocked, more]
  omega

theorem notifies_idle (enabled : q.notifyEnabled = true) (mode : q.notifyMode = .onIdleTransition) :
    notifies db queue q = true ↔ queueDepth db queue ≤ 1 := by
  simp [notifies, enabled, mode]

/-- In the idle mode a new job that is ready is announced exactly when no other job of the queue waits. -/
theorem enqueue_announces (ok : CountersTrue db) (stored : db.queues.get? a.queue = some q)
    (enabled : q.notifyEnabled = true) (mode : q.notifyMode = .onIdleTransition)
    (run : enqueue env a db = .ok ((id, true), db')) (here : db'.jobs.get? id = some job)
    (due : job.Due env.now) : Announces a.queue db db' ↔ Unoccupied a.queue db := by
  obtain outcome := enqueue_enqueued run
  cases outcome with
  | @created n q' m reserved inserted _ known _ _ _ taken insert finish =>
    cases stored.symm.trans known
    obtain ⟨counts, rfl⟩ := reservePlace_frame taken
    obtain ⟨row, counts', counters, same, -, -, -, -, -, frame⟩ := insertJob_frame insert
    have jobs : db'.jobs = inserted.jobs := (congrArg Core.jobs (finishEnqueue_frame finish).1).trans rfl
    have quiet : inserted.notices = db.notices := by rw [frame]
    have mine : row = job := by
      rw [jobs, frame] at here
      exact Option.some.inj ((Table.get?_put_self _ _ _).symm.trans here)
    rw [mine] at same
    have truth : CountersTrue { db with nextUuid := db.nextUuid + n + 1, memberCounts := counts } :=
      (ok.aside rfl rfl).1
    have depth := queueDepth_inserted truth insert (same ▸ due.1)
    have single : m.live = [] := by
      have queued : (a.row env q m).status = .queued := same ▸ due.1
      by_contra waits
      simp [EnqueueArgs.row, waits] at queued
    have ready : (a.row env q m).scheduledAt ≤ env.now := same ▸ due.2
    simp only [finishEnqueue, seq_eq_ok] at finish
    obtain ⟨evented, event, done⟩ := finish
    rw [emitEvent_quiet (by decide) (by decide)] at event
    cases event
    refine .trans ?_ (show queueDepth inserted a.queue ≤ 1 ↔ Unoccupied a.queue db from depth)
    cases done
    split_ifs with announced
    · refine iff_of_true (announces_notifyQueue quiet) ?_
      exact (notifies_idle enabled mode).mp announced.2.2
    · refine iff_of_false (not_announces quiet) fun shallow => announced ⟨single, ready, ?_⟩
      exact (notifies_idle enabled mode).mpr shallow

theorem updateJob_notices {f : JobRow → JobRow} (run : updateJob env id f db = .ok db') : db'.notices = db.notices := by
  unfold updateJob at run
  split at run
  · cases run
    rfl
  · obtain ⟨_, _, _, _, _, -, -, -, rfl⟩ := writeJob_frame run
    rfl

/-- A finish that creates a ready job announces it when no other job of the queue waits, and only then. -/
theorem finishAdmission_announces (ok : CountersTrue db) (stored : db.queues.get? queue = some q)
    (enabled : q.notifyEnabled = true) (mode : q.notifyMode = .onIdleTransition) {key : Option String}
    {handle : Option Uuid} {content receipt : Option Jsonb} {answer : FinishResult}
    (run : finishAdmission env queue key handle content receipt db = .ok (answer, db'))
    (created : answer.outcome = .created) (named : answer.jobId = some id) (here : db'.jobs.get? id = some job)
    (due : job.Due env.now) : Announces queue db db' ↔ Unoccupied queue db := by
  obtain ⟨k, key, row, -, -, -, ⟨-, -, rfl, rfl⟩ | ⟨-, -, args, jobId, entered, linked, parsed, enters, links, rfl, rfl⟩⟩ :=
    finishAdmission_cases run
  · cases created
  · cases named
    obtain ⟨rfl, -⟩ := parseAdmissionJob_eq_ok parsed
    obtain ⟨-, -, -, ⟨old, -, -, there, -⟩, -⟩ := (enqueue_enqueued enters).created_row
    have silent : Announces args.queue db linked ↔ Announces args.queue db entered := by
      rw [Announces, updateJob_notices links, Announces]
    refine (show Announces args.queue db linked ↔ _ from silent.trans ?_)
    simp only [updateJob, there] at links
    obtain ⟨written, counts, counters, flows, events, same, -, -, rfl⟩ := writeJob_frame links
    cases (Table.get?_put_self _ _ _).symm.trans here
    refine enqueue_announces ok stored enabled mode enters there ⟨?_, ?_⟩
    · exact (congrArg JobRow.status same).symm.trans due.1
    · exact (congrArg JobRow.scheduledAt same).symm.trans_le due.2

end Single

section Bulk

variable {workflow : Option (Uuid × Workflow)} {slots slots' : List BulkSlot} {slot : BulkSlot}

theorem insertJob_notices {new : JobRow} {inserted : Db} (run : insertJob env id new db = .ok (some inserted)) :
    inserted.notices = db.notices := by
  obtain ⟨_, _, _, -, -, -, -, -, -, rfl⟩ := insertJob_frame run
  rfl

theorem insertSlots_notices (run : insertSlots env q workflow slots db = .ok (slots', db')) :
    db'.notices = db.notices := by
  induction slots generalizing db slots' with
  | nil =>
    cases run
    rfl
  | cons slot slots ih =>
    unfold insertSlots at run
    split at run
    · obtain ⟨⟨tail, last⟩, loop, finish⟩ := seq_eq_ok.mp run
      cases finish
      exact ih loop
    · obtain ⟨inserted, insert, run⟩ := seq_eq_ok.mp run
      cases inserted with
      | some inserted =>
        obtain ⟨⟨tail, last⟩, loop, finish⟩ := seq_eq_ok.mp run
        cases finish
        exact (ih loop).trans (insertJob_notices insert)
      | none =>
        obtain ⟨⟨tail, last⟩, loop, finish⟩ := seq_eq_ok.mp run
        cases finish
        exact ih loop

theorem convergeSlot_notices {tries : ℕ} {answer : Uuid × Bool}
    (run : convergeSlot env q workflow slot tries db = .ok (answer, db')) : db'.notices = db.notices := by
  induction tries with
  | zero => cases run
  | succ tries ih =>
    unfold convergeSlot at run
    split at run
    · obtain ⟨-, -, finish⟩ := seq_eq_ok.mp run
      cases finish
      rfl
    · split at run
      · obtain ⟨-, -, finish⟩ := seq_eq_ok.mp run
        cases finish
        rfl
      · obtain ⟨inserted, insert, run⟩ := seq_eq_ok.mp run
        cases inserted with
        | some inserted =>
          cases run
          exact insertJob_notices insert
        | none => exact ih run

theorem convergeSlots_notices (run : convergeSlots env q workflow slots db = .ok (slots', db')) :
    db'.notices = db.notices := by
  induction slots generalizing db slots' with
  | nil =>
    cases run
    rfl
  | cons slot slots ih =>
    simp only [convergeSlots, seq_eq_ok] at run
    obtain ⟨⟨answered, mid⟩, first, ⟨rest, last⟩, loop, finish⟩ := run
    cases finish
    refine (ih loop).trans ?_
    unfold answerSlot at first
    split at first
    · cases first
      rfl
    · obtain ⟨⟨answer, converged⟩, converge, done⟩ := seq_eq_ok.mp first
      cases done
      exact convergeSlot_notices converge

/-- A bulk call that creates a ready job announces it, whatever else waits in the queue. -/
theorem enqueueMany_announces {specs : Option Jsonb} {answer : List (ℤ × Uuid × Bool)} {index : ℤ}
    (stored : db.queues.get? queue = some q) (enabled : q.notifyEnabled = true)
    (run : enqueueMany env queue specs db = .ok (answer, db')) (created : (index, id, true) ∈ answer)
    (here : db'.jobs.get? id = some job) (due : job.Due env.now) : Announces queue db db' := by
  simp only [enqueueMany, seq_eq_ok] at run
  obtain ⟨-, -, -, -, run⟩ := run
  rw [stored] at run
  simp only [seq_eq_ok] at run
  obtain ⟨⟨slots, parsedDb⟩, parse, ⟨workflow, resolved⟩, resolve, -, -, reserved, reserve,
    ⟨inserted, insertedDb⟩, insert, ⟨converged, convergedDb⟩, converge, finish⟩ := run
  cases finish
  obtain ⟨rfl, -⟩ := parseSpecs_eq_ok parse
  obtain ⟨counts, rfl⟩ := reserveSlots_frame reserve
  obtain ⟨events, evented⟩ := enqueuedEvents_frame env (createdJobs converged) convergedDb
  have quiet : (enqueuedEvents env (createdJobs converged) convergedDb).notices = db.notices := by
    have kept := insertSlots_notices insert
    rw [evented]
    exact (convergeSlots_notices converge).trans kept
  have listed : id ∈ createdJobs converged := by
    obtain ⟨slot, member, answered⟩ := List.mem_filterMap.mp created
    obtain ⟨⟨answer, fresh⟩, given, same⟩ := Option.map_eq_some_iff.mp answered
    cases same
    exact List.mem_filterMap.mpr ⟨slot, member, by simp [given]⟩
  unfold notifyCreated at here ⊢
  split_ifs at here ⊢ with ready
  · exact announces_notifyQueue quiet
  · refine absurd ⟨enabled, List.any_eq_true.mpr ⟨id, listed, ?_⟩⟩ ready
    simp [here, due.1, due.2]

end Bulk

section Followups

/-- A followup that is ready is announced, whatever else waits in its queue. -/
theorem insertFollowup_announces {f : Followup} {row : JobRow} {tries : ℕ}
    (run : insertFollowup env f q row tries db = .ok ((id, true), db')) : ∃ job, db'.jobs.get? id = some job ∧
      job.toJobRow = row ∧ (q.notifyEnabled = true → row.Due env.now → Announces row.queue db db') := by
  induction tries generalizing db with
  | zero => cases run
  | succ tries ih =>
    simp only [insertFollowup, newUuid, seq_eq_ok] at run
    obtain ⟨inserted, insert, run⟩ := run
    cases inserted with
    | some inserted =>
      obtain ⟨evented, event, finish⟩ := seq_eq_ok.mp run
      rw [emitEvent_quiet (by decide) (by decide)] at event
      cases event
      cases finish
      have quiet := insertJob_notices insert
      obtain ⟨job, _, _, same, -, -, -, -, -, frame⟩ := insertJob_frame insert
      refine ⟨job, ?_, same, fun enabled due => ?_⟩
      · split_ifs <;> exact frame ▸ Table.get?_put_self _ _ _
      · rw [if_pos ⟨due.2, enabled⟩]
        exact announces_notifyQueue quiet
    | none =>
      simp only at run
      split at run
      · obtain ⟨-, -, finish⟩ := seq_eq_ok.mp run
        cases finish
      · obtain ⟨job, here, same, announces⟩ := ih run
        exact ⟨job, here, same, announces⟩

theorem enqueueFollowup_announces {parentId : Uuid} {parentQueue : String} {spec : Jsonb} {index : ℤ}
    (run : enqueueFollowup env parentId parentQueue spec index db = .ok ((id, true), db'))
    (here : db'.jobs.get? id = some job) (stored : db.queues.get? job.queue = some q)
    (enabled : q.notifyEnabled = true) (due : job.Due env.now) : Announces job.queue db db' := by
  simp only [enqueueFollowup, seq_eq_ok] at run
  obtain ⟨-, -, -, -, -, -, -, -, run⟩ := run
  split at run
  · cases run
  · simp only [seq_eq_ok] at run
    obtain ⟨-, -, f, -, run⟩ := run
    split at run
    · cases run
    · rename_i other known
      have inserts : ∃ row, row.queue = f.queue ∧ insertFollowup env f other row 3 db = .ok ((id, true), db') := by
        split at run
        · obtain ⟨-, -, insert⟩ := seq_eq_ok.mp run
          exact ⟨_, rfl, insert⟩
        · exact ⟨_, rfl, run⟩
      obtain ⟨row, named, insert⟩ := inserts
      obtain ⟨job', there, rfl, announces⟩ := insertFollowup_announces insert
      cases there.symm.trans here
      rw [named] at stored
      cases stored.symm.trans known
      exact announces enabled due

end Followups

section Idle

variable {site : Site} {s : System}

/-- In every reachable state, and at every moment of a call from there: a ready job that enters a queue of the
idle mode by a single call is announced if and only if no other job of the queue waits, whether claimable or not;
one that enters by a bulk call or as a followup is always announced. -/
theorem unoccupied_queue_announces (reachable : System.Reachable site anyCall s) {log : List Logged}
    (moment : Statements env log s.db db) (stored : db.queues.get? queue = some q) (enabled : q.notifyEnabled = true)
    (mode : q.notifyMode = .onIdleTransition) (here : db'.jobs.get? id = some job) (due : job.Due env.now) :
    (∀ a, a.queue = queue → enqueue env a db = .ok ((id, true), db') →
      (Announces queue db db' ↔ Unoccupied queue db)) ∧
    (∀ a retry, a.queue = queue → tryEnqueue env a db = .ok ((.accepted, some id, retry), db') →
      (Announces queue db db' ↔ Unoccupied queue db)) ∧
    (∀ key handle content receipt answer, finishAdmission env queue key handle content receipt db = .ok (answer, db') →
      answer.outcome = .created → answer.jobId = some id → (Announces queue db db' ↔ Unoccupied queue db)) ∧
    (∀ specs answer index, enqueueMany env queue specs db = .ok (answer, db') → (index, id, true) ∈ answer →
      Announces queue db db') ∧
    (∀ parentId parentQueue spec index, job.queue = queue →
      enqueueFollowup env parentId parentQueue spec index db = .ok ((id, true), db') → Announces queue db db') := by
  obtain ⟨now, run⟩ := reachable
  have ok := (moment.counters (run.backfilled (Backfilled.installed site now)).queues).1
  refine ⟨?_, ?_, ?_, ?_, ?_⟩
  · rintro a rfl enters
    exact enqueue_announces ok stored enabled mode enters here due
  · rintro a retry rfl tries
    exact enqueue_announces ok stored enabled mode (tryEnqueue_accepted tries) here due
  · intro key handle content receipt answer finishes created named
    exact finishAdmission_announces ok stored enabled mode finishes created named here due
  · intro specs answer index enters created
    exact enqueueMany_announces stored enabled enters created here due
  · rintro parentId parentQueue spec index rfl follows
    exact enqueueFollowup_announces follows here stored enabled due

/-- A queue in the idle mode, with a job for each of these times. -/
def idleMode (times : List Time) : List (Time × Command) :=
  (0, .ensureQueue (some "q") (some (.build [("notify_mode", .str "on_idle_transition")]))) ::
    times.map fun time => (0, .enqueue { EnqueueArgs.simple "q" with scheduledAt := some time })

/-- No job of the queue can be claimed, and a job that can be is enqueued; the test is about the states. -/
def entersDue (p : Db → Db → Bool) (s : System) : Bool :=
  (s.db.queues.get? "q").any (fun q => q.notifyEnabled && q.notifyMode = .onIdleTransition) &&
    s.db.jobs.count (fun _ j => j.queue = "q" ∧ j.status = .queued ∧ j.scheduledAt ≤ 0) = 0 &&
      match enqueue (.alone .plain 0 9) (.simple "q") s.db with
      | .ok ((id, true), db) => (db.jobs.get? id).any (fun job => job.status = .queued && job.scheduledAt ≤ 0) && p s.db db
      | _ => false

theorem enters_played {times : List Time} {p : Db → Db → Bool}
    (played : System.plays .plain (idleMode times) (.installed .plain 0) (entersDue p) = true) :
    ∃ (s : System) (q : Queue) (id : Uuid) (job : Job) (db : Db), System.Reachable .plain anyCall s ∧
      s.db.queues.get? "q" = some q ∧ q.notifyEnabled = true ∧ q.notifyMode = .onIdleTransition ∧
      (∀ other j, s.db.jobs.get? other = some j → j.queue = "q" → ¬j.Due 0) ∧
      enqueue (.alone .plain 0 9) (.simple "q") s.db = .ok ((id, true), db) ∧ db.jobs.get? id = some job ∧
      job.Due 0 ∧ p s.db db = true := by
  obtain ⟨s, run, there⟩ := System.plays_run anyCall played fun _ _ _ => trivial
  unfold entersDue at there
  simp only [Bool.and_eq_true, decide_eq_true_eq] at there
  obtain ⟨⟨queue, none'⟩, there⟩ := there
  obtain ⟨q, stored, good⟩ := (Option.any_eq_true _ _).mp queue
  simp only [Bool.and_eq_true, decide_eq_true_eq] at good
  split at there
  · rename_i id db entered
    obtain ⟨fresh, holds⟩ := (Bool.and_eq_true _ _).mp there
    obtain ⟨job, here, due⟩ := (Option.any_eq_true _ _).mp fresh
    simp only [Bool.and_eq_true, decide_eq_true_eq] at due
    refine ⟨s, q, id, job, db, ⟨0, run⟩, stored, good.1, good.2, fun other j there' mine ready => ?_, entered, here, due, holds⟩
    have not := Table.count_eq_zero.mp none' other j there'
    exact absurd (decide_eq_true (p := _ ∧ _ ∧ _) ⟨mine, ready⟩) (by simpa using not)
  · cases there

/-- The first job of the queue is announced. -/
theorem unoccupied_queue_announces_first : ∃ (s : System) (id : Uuid) (db : Db), System.Reachable .plain anyCall s ∧
    enqueue (.alone .plain 0 9) (.simple "q") s.db = .ok ((id, true), db) ∧ Announces "q" s.db db := by
  have played : System.plays .plain (idleMode []) (.installed .plain 0) (entersDue fun before _ =>
      before.jobs.count (fun _ _ => true) = 0) = true := by decide +kernel
  obtain ⟨s, q, id, job, db, reachable, stored, enabled, mode, -, entered, here, due, empty⟩ := enters_played played
  refine ⟨s, id, db, reachable, entered, ?_⟩
  refine ((unoccupied_queue_announces reachable (.nil s.db) stored enabled mode here due).1 (.simple "q") rfl entered).mpr ?_
  intro other j there
  exact absurd (Table.count_eq_zero.mp (of_decide_eq_true empty) other j there) (by decide)

/-- Behind a job that nobody can claim yet, a job that can be claimed enters without a notification. -/
theorem unoccupied_queue_silent : ∃ (s : System) (q : Queue) (id : Uuid) (job : Job) (db : Db),
    System.Reachable .plain anyCall s ∧ s.db.queues.get? "q" = some q ∧ q.notifyEnabled = true ∧
    q.notifyMode = .onIdleTransition ∧ (∀ other j, s.db.jobs.get? other = some j → j.queue = "q" → ¬j.Due 0) ∧
    enqueue (.alone .plain 0 9) (.simple "q") s.db = .ok ((id, true), db) ∧ db.jobs.get? id = some job ∧
    job.Due 0 ∧ ¬Announces "q" s.db db := by
  have played : System.plays .plain (idleMode [1000000]) (.installed .plain 0) (entersDue fun before later =>
      later.notices = before.notices) = true := by decide +kernel
  obtain ⟨s, q, id, job, db, reachable, stored, enabled, mode, none', entered, here, due, quiet⟩ := enters_played played
  exact ⟨s, q, id, job, db, reachable, stored, enabled, mode, none', entered, here, due,
    not_announces (of_decide_eq_true quiet)⟩

end Idle

end Taskq
