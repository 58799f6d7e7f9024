import Taskq.Invariants.History

/-! The counters that the triggers keep: live jobs of each queue by status, what happened to them in
total, and the members of each workflow by status. -/
namespace Taskq
open Relational

section Queues

/-- Jobs of a queue in a status. -/
def jobsIn (t : Table Uuid Job) (queue : String) (status : JobStatus) : ℕ :=
  t.count fun _ j => j.queue = queue ∧ j.status = status

def Db.countersOf (db : Db) (queue : String) : QueueCounters :=
  (db.queueCounters.get? queue).getD (.zero 0)

/-- The counter of a live status. -/
def QueueCounters.live (c : QueueCounters) : JobStatus → ℤ
  | .blocked => c.blocked
  | .queued => c.queued
  | .running => c.running
  | _ => 0

/-- The cumulative counters. -/
inductive Tally where
  | enqueued | requeued | succeeded | failed | cancelled
  deriving DecidableEq, Repr

def QueueCounters.total (c : QueueCounters) : Tally → ℤ
  | .enqueued => c.enqueuedTotal
  | .requeued => c.requeuedTotal
  | .succeeded => c.succeededTotal
  | .failed => c.failedTotal
  | .cancelled => c.cancelledTotal

/-- The transitions that a cumulative counter of a queue counts. -/
def Tally.counts (queue : String) : Tally → Logged → Bool
  | .enqueued, .insert _ new => new.queue = queue
  | .requeued, .update _ old new =>
    new.queue = queue ∧ old.status = .running ∧ new.status = .queued
  | .succeeded, .update _ old new =>
    new.queue = queue ∧ new.status ≠ old.status ∧ new.status = .succeeded
  | .failed, .update _ old new => new.queue = queue ∧ new.status ≠ old.status ∧ new.status = .failed
  | .cancelled, .update _ old new =>
    new.queue = queue ∧ new.status ≠ old.status ∧ new.status = .cancelled
  | _, _ => false

/-- Every live counter is the number of jobs that it stands for. -/
def CountersTrue (db : Db) : Prop :=
  ∀ queue status, status.active = true → (db.countersOf queue).live status = jobsIn db.jobs queue status

variable {env : Env} {id : Uuid} {old : Job} {new : JobRow} {db db' : Db} {queue : String}
  {status : JobStatus}

theorem Db.countersOf_putCounters (db : Db) (name : String) (c : QueueCounters) (queue : String) :
    (db.putCounters name c).countersOf queue = if queue = name then c else db.countersOf queue := by
  simp only [Db.countersOf, Db.putCounters, Table.get?_put]
  split_ifs <;> rfl

@[simp] theorem one_false : one false = 0 := rfl

theorem one_eq_cast (b : Bool) : one b = ((if b = true then 1 else 0 : ℕ) : ℤ) := by
  cases b <;> rfl

section Counts

variable {t : Table Uuid Job} {job : Job} {p : Uuid → Job → Bool}

theorem count_written (stored : t.get? id = some old) :
    ((t.put id job).count p : ℤ) = t.count p - one (p id old) + one (p id job) := by
  have moved := Table.count_put_of_get? stored job p
  simp only [one_eq_cast]
  omega

theorem count_removed (stored : t.get? id = some old) :
    ((t.remove id).count p : ℤ) = t.count p - one (p id old) := by
  have before := Table.count_remove stored p
  simp only [one_eq_cast]
  omega

theorem count_inserted (fresh : t.get? id = none) :
    ((t.put id job).count p : ℤ) = t.count p + one (p id job) := by
  have after := Table.count_put t id job p
  rw [Table.remove_of_get?_eq_none fresh] at after
  simp only [one_eq_cast]
  omega

end Counts

/-- A write moves one job of its queue from one status to another. -/
theorem jobsIn_put {t : Table Uuid Job} {job : Job} (stored : t.get? id = some old) :
    (jobsIn (t.put id job) queue status : ℤ) =
      jobsIn t queue status - one (old.queue = queue ∧ old.status = status) +
        one (job.queue = queue ∧ job.status = status) :=
  count_written stored

theorem jobsIn_remove {t : Table Uuid Job} (stored : t.get? id = some old) :
    (jobsIn (t.remove id) queue status : ℤ) =
      jobsIn t queue status - one (old.queue = queue ∧ old.status = status) :=
  count_removed stored

theorem jobsIn_insert {t : Table Uuid Job} {job : Job} (fresh : t.get? id = none) :
    (jobsIn (t.put id job) queue status : ℤ) =
      jobsIn t queue status + one (job.queue = queue ∧ job.status = status) :=
  count_inserted fresh

/-- The row that a trigger starts from when the queue has none yet. -/
theorem live_getD (db : Db) (queue : String) (now : Time) (status : JobStatus) :
    ((db.queueCounters.get? queue).getD (.zero now)).live status =
      (db.countersOf queue).live status := by
  unfold Db.countersOf
  cases db.queueCounters.get? queue with
  | none => cases status <;> rfl
  | some c => rfl

theorem total_getD (db : Db) (queue : String) (now : Time) (k : Tally) :
    ((db.queueCounters.get? queue).getD (.zero now)).total k = (db.countersOf queue).total k := by
  unfold Db.countersOf
  cases db.queueCounters.get? queue with
  | none => cases k <;> rfl
  | some c => rfl

theorem countInserted_live (active : status.active = true) :
    ((countInserted env new db).countersOf queue).live status =
      (db.countersOf queue).live status + one (new.queue = queue ∧ new.status = status) := by
  simp only [countInserted, Db.countersOf_putCounters]
  split_ifs with same
  · subst same
    rw [← live_getD db new.queue env.now]
    cases status <;> simp_all [QueueCounters.live, JobStatus.active, JobStatus.terminal]
  · simp [one, Ne.symm same]

theorem countInserted_total (id : Uuid) (k : Tally) : ((countInserted env new db).countersOf queue).total k =
    (db.countersOf queue).total k + one (k.counts queue (.insert id new)) := by
  simp only [countInserted, Db.countersOf_putCounters]
  split_ifs with same
  · subst same
    rw [← total_getD db new.queue env.now]
    cases k <;> simp [QueueCounters.total, Tally.counts, one]
  · cases k <;> simp [Tally.counts, one, Ne.symm same]

/-- With a counter that counts the job, the trigger's floor at zero does not bind. -/
theorem countUpdated_live {row : JobRow} (active : status.active = true) (kept : new.queue = row.queue)
    (counted : one (row.queue = queue ∧ row.status = status) ≤ (db.countersOf queue).live status) :
    ((countUpdated env row new db).countersOf queue).live status =
      (db.countersOf queue).live status - one (row.queue = queue ∧ row.status = status) +
        one (new.queue = queue ∧ new.status = status) := by
  unfold countUpdated
  split_ifs with still
  · simp [kept, still]
  · simp only [Db.countersOf_putCounters]
    split_ifs with same
    · subst same
      rw [← live_getD db new.queue env.now] at counted ⊢
      cases status <;> simp_all [QueueCounters.live, JobStatus.active, JobStatus.terminal]
    · simp [one, kept ▸ Ne.symm same, Ne.symm same]

theorem countUpdated_total (id : Uuid) {row : JobRow} (k : Tally) :
    ((countUpdated env row new db).countersOf queue).total k =
      (db.countersOf queue).total k + one (k.counts queue (.update id row new)) := by
  unfold countUpdated
  split_ifs with still
  · cases k <;> simp [Tally.counts, one, still]
    intros
    simp_all
  · simp only [Db.countersOf_putCounters]
    split_ifs with same
    · subst same
      rw [← total_getD db new.queue env.now]
      cases k <;> simp [QueueCounters.total, Tally.counts, still]
    · cases k <;> simp [Tally.counts, one, Ne.symm same]

theorem countDeleted_live {row : JobRow} (active : status.active = true)
    (counted : one (row.queue = queue ∧ row.status = status) ≤ (db.countersOf queue).live status) :
    ((countDeleted env row db).countersOf queue).live status =
      (db.countersOf queue).live status - one (row.queue = queue ∧ row.status = status) := by
  unfold countDeleted
  cases found : db.queueCounters.get? row.queue with
  | none =>
    by_cases same : row.queue = queue
    · subst same
      have zero : (db.countersOf row.queue).live status = 0 := by
        cases status <;> simp [Db.countersOf, found, QueueCounters.live, QueueCounters.zero]
      rw [zero] at counted ⊢
      unfold one at counted ⊢
      split_ifs at counted ⊢ <;> simp_all
    · simp [one, same]
  | some c =>
    simp only [Db.countersOf_putCounters]
    split_ifs with same
    · subst same
      simp only [Db.countersOf, found, Option.getD_some] at counted ⊢
      cases status <;> simp_all [QueueCounters.live, JobStatus.active, JobStatus.terminal]
    · simp [one, Ne.symm same]

theorem countDeleted_total {row : JobRow} (k : Tally) :
    ((countDeleted env row db).countersOf queue).total k = (db.countersOf queue).total k := by
  unfold countDeleted
  cases found : db.queueCounters.get? row.queue with
  | none => rfl
  | some c =>
    simp only [Db.countersOf_putCounters]
    split_ifs with same
    · subst same
      simp only [Db.countersOf, found, Option.getD_some]
      cases k <;> rfl
    · rfl

/-- The counters of the queue's row after a write are those that the trigger leaves. -/
theorem writeJob_counters (run : writeJob env id old new db = .ok db') :
    ∃ job : Job, job.toJobRow = new ∧ db'.jobs = db.jobs.put id job ∧
      db'.queueCounters = (countUpdated env old.toJobRow new db).queueCounters := by
  simp only [writeJob, seq_eq_ok, ensure_eq_ok, storeJob_eq_ok] at run
  obtain ⟨-, -, job, ⟨-, rfl⟩, -, -, settled, breaker, counts, -, done⟩ := run
  have flowed : ∃ flows events,
      settled = { db.putJob id job with queueFlow := flows, events := events } := by
    split at breaker
    · exact breakerOnSettle_frame breaker
    · cases breaker
      exact ⟨_, _, rfl⟩
  obtain ⟨flows, events, rfl⟩ := flowed
  cases done
  refine ⟨job, rfl, ?_, ?_⟩ <;> unfold countUpdated <;> split_ifs <;> rfl

theorem insertJob_counters (run : insertJob env id new db = .ok (some db')) :
    ∃ job : Job, job.toJobRow = new ∧ db.jobs.get? id = none ∧ db'.jobs = db.jobs.put id job ∧
      db'.queueCounters = (countInserted env new db).queueCounters := by
  simp only [insertJob, seq_eq_ok, storeJob_eq_ok] at run
  obtain ⟨-, -, job, ⟨-, rfl⟩, run⟩ := run
  split at run
  · cases run
  · simp only [seq_eq_ok, ensure_eq_ok] at run
    obtain ⟨-, fresh, -, -, -, -, -, -, counts, -, done⟩ := run
    cases done
    exact ⟨job, rfl, by simpa using fresh, rfl, rfl⟩

theorem deleteJob_counters (run : deleteJob env (id, old) db = .ok db') :
    db'.jobs = db.jobs.remove id ∧
      db'.queueCounters = (countDeleted env old.toJobRow db).queueCounters := by
  simp only [deleteJob, seq_eq_ok] at run
  obtain ⟨-, -, counts, -, done⟩ := run
  cases done
  cases found : db.queueCounters.get? old.queue <;> simp [countDeleted, found, Db.putCounters]

theorem countersOf_congr (same : db'.queueCounters = db.queueCounters) (queue : String) :
    db'.countersOf queue = db.countersOf queue := by
  simp only [Db.countersOf, same]

/-- A live counter that tells the truth counts every stored job of its status. -/
theorem CountersTrue.counted (ok : CountersTrue db) (stored : db.jobs.get? id = some old)
    (active : status.active = true) (queue : String) :
    one (old.queue = queue ∧ old.status = status) ≤ (db.countersOf queue).live status := by
  rw [ok queue status active]
  have left : (jobsIn (db.jobs.remove id) queue status : ℤ) =
      jobsIn db.jobs queue status - one (old.queue = queue ∧ old.status = status) := jobsIn_remove stored
  omega

/-- A statement on other tables leaves the counters alone. -/
theorem CountersTrue.aside (jobs : db'.jobs = db.jobs) (counters : db'.queueCounters = db.queueCounters)
    (ok : CountersTrue db) : CountersTrue db' ∧ ∀ queue k,
      (db'.countersOf queue).total k =
        (db.countersOf queue).total k + ([] : List Logged).countP (k.counts queue) := by
  refine ⟨fun queue status active => ?_, fun queue k => ?_⟩
  · rw [countersOf_congr counters, jobs]
    exact ok queue status active
  · simp [countersOf_congr counters]

theorem JobStatement.counters {entries : List Logged} (statement : JobStatement env entries db db')
    (ok : CountersTrue db) : CountersTrue db' ∧ ∀ queue k,
      (db'.countersOf queue).total k = (db.countersOf queue).total k + entries.countP (k.counts queue) := by
  cases statement with
  | aside jobs meters => exact ok.aside jobs (congrArg Meters.counters meters)
  | @insert _ _ id _ run =>
    obtain ⟨job, rfl, fresh, jobs, counters⟩ := insertJob_counters run
    refine ⟨fun queue status active => ?_, fun queue k => ?_⟩
    · rw [countersOf_congr counters, countInserted_live active, jobs, jobsIn_insert fresh,
        ok queue status active]
    · rw [countersOf_congr counters, countInserted_total id k, List.countP_singleton]
      simp [one]
  | @update _ _ id _ _ stored kept run =>
    obtain ⟨job, rfl, jobs, counters⟩ := writeJob_counters run
    refine ⟨fun queue status active => ?_, fun queue k => ?_⟩
    · rw [countersOf_congr counters, jobs, jobsIn_put stored,
        countUpdated_live active (congrArg Identity.queue kept) (ok.counted stored active _),
        ok queue status active]
    · rw [countersOf_congr counters, countUpdated_total id k, List.countP_singleton]
      simp [one]
  | delete stored run =>
    obtain ⟨jobs, counters⟩ := deleteJob_counters run
    refine ⟨fun queue status active => ?_, fun queue k => ?_⟩
    · rw [countersOf_congr counters, jobs, jobsIn_remove stored,
        countDeleted_live active (ok.counted stored active _), ok queue status active]
    · rw [countersOf_congr counters, countDeleted_total k]
      cases k <;> simp [Tally.counts]

/-- What a statement does to the counters: they stay true, and the totals grow with the log. -/
theorem Statement.counters {entries : List Logged} (statement : Statement env entries db db')
    (ok : CountersTrue db) : CountersTrue db' ∧ ∀ queue k,
      (db'.countersOf queue).total k = (db.countersOf queue).total k + entries.countP (k.counts queue) := by
  cases statement with
  | gate run =>
    obtain ⟨flows, rfl⟩ := breakerGate_frame run
    exact ok.aside rfl rfl
  | body statement =>
    cases statement with
    | job statement => exact statement.counters ok
    | consume _ _ run =>
      obtain ⟨flows, rfl⟩ := flowConsumeQueue_frame run
      exact ok.aside rfl rfl
    | key key =>
      obtain ⟨keys, frame⟩ := flowKeyAdmit_frame env key db
      rw [frame]
      exact ok.aside rfl rfl

theorem Statements.counters {log : List Logged} (statements : Statements env log db db')
    (ok : CountersTrue db) : CountersTrue db' ∧ ∀ queue k,
      (db'.countersOf queue).total k = (db.countersOf queue).total k + log.countP (k.counts queue) := by
  refine statements.induction_on (P := fun log db' => CountersTrue db' ∧ ∀ queue k,
    (db'.countersOf queue).total k = (db.countersOf queue).total k + log.countP (k.counts queue))
    ⟨ok, by simp⟩ fun before last => ?_
  obtain ⟨mid, totals⟩ := before
  obtain ⟨after, more⟩ := last.counters mid
  refine ⟨after, fun queue k => ?_⟩
  rw [more, totals, List.countP_append]
  push_cast
  ring

end Queues

section Members

/-- Members of a workflow in a status. -/
def membersIn (t : Table Uuid Job) (w : Uuid) (status : JobStatus) : ℕ :=
  t.count fun _ j => j.workflowId = some w ∧ j.status = status

/-- The counter of a status. -/
def MemberCounts.of (c : MemberCounts) : JobStatus → ℤ
  | .blocked => c.blocked
  | .queued => c.queued
  | .running => c.running
  | .succeeded => c.succeeded
  | .failed => c.failed
  | .cancelled => c.cancelled

/-- Members belong to stored workflows, each of which has counts, and these are true. -/
structure MembersTrue (c : Core) : Prop where
  known : ∀ id job w, c.jobs.get? id = some job → job.workflowId = some w →
    c.workflows.get? w ≠ none
  paired : ∀ w, c.memberCounts.get? w = none ↔ c.workflows.get? w = none
  counted : ∀ w counts, c.memberCounts.get? w = some counts →
    ∀ status, counts.of status = membersIn c.jobs w status

variable {c d : Core} {l : Label} {id w : Uuid} {old job : Job} {counts : MemberCounts}
  {status : JobStatus} {t m : Table Uuid MemberCounts}

theorem MemberCounts.minus_of (c : MemberCounts) (s status : JobStatus) :
    (c.minus s).of status = c.of status - one (s = status) := by
  cases status <;> rfl

theorem MemberCounts.plus_of (c : MemberCounts) (s status : JobStatus) :
    (c.plus s).of status = c.of status + one (s = status) := by
  cases status <;> rfl

theorem putCounts_eq_ok (run : putCounts w counts t = .ok m) : m = t.put w counts := by
  obtain ⟨-, -, done⟩ := seq_eq_ok.mp run
  exact (Except.ok.inj done).symm

theorem countEnter_eq_ok (run : countEnter w status t = .ok m) :
    ∃ counts, t.get? w = some counts ∧ m = t.put w (counts.plus status) := by
  unfold countEnter at run
  split at run
  · exact ⟨_, ‹_›, putCounts_eq_ok run⟩
  · cases run

/-- The counts of a workflow after a member left a status; the counts may be gone. -/
theorem countLeave_eq_ok {workflows : Table Uuid Workflow}
    (run : countLeave workflows w status t = .ok m) :
    (∃ counts, t.get? w = some counts ∧ m = t.put w (counts.minus status)) ∨
      t.get? w = none ∧ m = t := by
  unfold countLeave at run
  split at run
  · exact .inl ⟨_, ‹_›, putCounts_eq_ok run⟩
  · obtain ⟨-, -, done⟩ := seq_eq_ok.mp run
    exact .inr ⟨‹_›, (Except.ok.inj done).symm⟩

/-- The counts after a rewrite: nothing moves, or one member moves from a status to another. -/
theorem updateMemberCounts_eq_ok {workflows : Table Uuid Workflow} {r r' : JobRow}
    (run : updateWorkflowMemberCounts workflows r r' t = .ok m) :
    (m = t ∧ (r.workflowId = none ∨ r'.status = r.status)) ∨
      ∃ w counts, r.workflowId = some w ∧ t.get? w = some counts ∧
        m = t.put w ((counts.minus r.status).plus r'.status) := by
  unfold updateWorkflowMemberCounts at run
  split at run
  · cases run
    exact .inl ⟨rfl, .inl ‹_›⟩
  · rename_i w member
    split_ifs at run with still
    · cases run
      exact .inl ⟨rfl, .inr still⟩
    · obtain ⟨left, leave, enter⟩ := seq_eq_ok.mp run
      obtain ⟨counts, there, rfl⟩ := countEnter_eq_ok enter
      obtain ⟨before, stored, rfl⟩ | ⟨gone, rfl⟩ := countLeave_eq_ok leave
      · rw [Table.get?_put_self, Option.some.injEq] at there
        subst there
        exact .inr ⟨w, before, member, stored, Table.put_put _ _ _ _⟩
      · cases gone.symm.trans there

/-- A rewritten row keeps the counts true. -/
theorem MembersTrue.write (ok : MembersTrue c) (row : RowWrite c id old job m) :
    MembersTrue { c with jobs := c.jobs.put id job, memberCounts := m } := by
  have same : job.workflowId = old.workflowId := congrArg Identity.workflowId row.kept
  have moved (w : Uuid) (status : JobStatus) : (membersIn (c.jobs.put id job) w status : ℤ) =
      membersIn c.jobs w status - one (old.workflowId = some w ∧ old.status = status) +
        one (job.workflowId = some w ∧ job.status = status) := count_written row.stored
  have known (id' : Uuid) (job' : Job) (w : Uuid) (here : (c.jobs.put id job).get? id' = some job')
      (member : job'.workflowId = some w) : c.workflows.get? w ≠ none := by
    rw [Table.get?_put] at here
    split_ifs at here
    · cases here
      exact ok.known id old w row.stored (same ▸ member)
    · exact ok.known id' job' w here member
  obtain ⟨rfl, apart⟩ | ⟨w, counts, member, stored, rfl⟩ := updateMemberCounts_eq_ok row.counted
  · refine ⟨known, ok.paired, fun w counts there status => ?_⟩
    change _ = (membersIn (c.jobs.put id job) w status : ℤ)
    rw [moved, ok.counted w counts there status, same]
    obtain none' | still := apart
    · simp [one, none']
    · simp [still]
  · refine ⟨known, fun v => ?_, fun v counts' there status => ?_⟩
    · exact (Table.get?_put_eq_none (by simp [stored]) _ v).trans (ok.paired v)
    · change _ = (membersIn (c.jobs.put id job) v status : ℤ)
      rw [Table.get?_put] at there
      rw [moved, same]
      split_ifs at there with own
      · subst own
        cases there
        rw [MemberCounts.plus_of, MemberCounts.minus_of, ok.counted v counts stored status]
        simp [member]
      · have other : old.workflowId ≠ some v := fun is => own (Option.some.inj (is.symm.trans member))
        simp [ok.counted v counts' there status, one, other]

theorem MembersTrue.enter {parent : Option Uuid} (ok : MembersTrue c) (fresh : c.jobs.get? id = none)
    (entry : Entry c job.toJobRow parent)
    (counted : insertWorkflowMemberCounts job.toJobRow c.memberCounts = .ok m) :
    MembersTrue { c with jobs := c.jobs.put id job, memberCounts := m } := by
  have moved (w : Uuid) (status : JobStatus) : (membersIn (c.jobs.put id job) w status : ℤ) =
      membersIn c.jobs w status + one (job.workflowId = some w ∧ job.status = status) :=
    count_inserted fresh
  have stored (w : Uuid) (member : job.workflowId = some w) : c.workflows.get? w ≠ none := by
    cases entry with
    | producer _ _ workflow =>
      obtain ⟨r, there, -⟩ := workflow w member
      simp [there]
    | continuation _ _ _ _ _ workflow =>
      obtain ⟨-, -, r, there, -⟩ := workflow w member
      simp [there]
  have known (id' : Uuid) (job' : Job) (w : Uuid) (here : (c.jobs.put id job).get? id' = some job')
      (member : job'.workflowId = some w) : c.workflows.get? w ≠ none := by
    rw [Table.get?_put] at here
    split_ifs at here
    · cases here
      exact stored w member
    · exact ok.known id' job' w here member
  unfold insertWorkflowMemberCounts at counted
  split at counted
  · rename_i alone
    cases counted
    refine ⟨known, ok.paired, fun w counts there status => ?_⟩
    change _ = (membersIn (c.jobs.put id job) w status : ℤ)
    rw [moved, ok.counted w counts there status]
    simp [one, alone]
  · rename_i w member
    obtain ⟨counts, there, rfl⟩ := countEnter_eq_ok counted
    refine ⟨known, fun v => ?_, fun v counts' here status => ?_⟩
    · exact (Table.get?_put_eq_none (by simp [there]) _ v).trans (ok.paired v)
    · change _ = (membersIn (c.jobs.put id job) v status : ℤ)
      rw [Table.get?_put] at here
      rw [moved]
      split_ifs at here with own
      · subst own
        cases here
        rw [MemberCounts.plus_of, ok.counted v counts there status]
        simp [member]
      · have other : job.workflowId ≠ some v := fun is => own (Option.some.inj (is.symm.trans member))
        simp [ok.counted v counts' here status, one, other]

theorem MembersTrue.delete (ok : MembersTrue c) (stored : c.jobs.get? id = some old)
    (counted : deleteWorkflowMemberCounts c.workflows old.toJobRow c.memberCounts = .ok m) :
    MembersTrue { c with jobs := c.jobs.remove id, memberCounts := m } := by
  have moved (w : Uuid) (status : JobStatus) : (membersIn (c.jobs.remove id) w status : ℤ) =
      membersIn c.jobs w status - one (old.workflowId = some w ∧ old.status = status) :=
    count_removed stored
  have known (id' : Uuid) (job' : Job) (w : Uuid) (here : (c.jobs.remove id).get? id' = some job')
      (member : job'.workflowId = some w) : c.workflows.get? w ≠ none := by
    rw [Table.get?_remove] at here
    split_ifs at here
    exact ok.known id' job' w here member
  unfold deleteWorkflowMemberCounts at counted
  split at counted
  · rename_i alone
    cases counted
    refine ⟨known, ok.paired, fun w counts there status => ?_⟩
    change _ = (membersIn (c.jobs.remove id) w status : ℤ)
    rw [moved, ok.counted w counts there status]
    simp [one, alone]
  · rename_i w member
    obtain ⟨counts, there, rfl⟩ | ⟨gone, -⟩ := countLeave_eq_ok counted
    · refine ⟨known, fun v => ?_, fun v counts' here status => ?_⟩
      · exact (Table.get?_put_eq_none (by simp [there]) _ v).trans (ok.paired v)
      · change _ = (membersIn (c.jobs.remove id) v status : ℤ)
        rw [Table.get?_put] at here
        rw [moved]
        split_ifs at here with own
        · subst own
          cases here
          rw [MemberCounts.minus_of, ok.counted v counts there status]
          simp [member]
        · have other : old.workflowId ≠ some v := fun is => own (Option.some.inj (is.symm.trans member))
          simp [ok.counted v counts' here status, one, other]
    · exact absurd ((ok.paired w).mp gone) (ok.known id old w stored member)

/-- Every transition keeps the counts true. -/
theorem MembersTrue.step (ok : MembersTrue c) (h : Transition l c d) : MembersTrue d := by
  cases h with
  | start row => exact ⟨(ok.write row).known, (ok.write row).paired, (ok.write row).counted⟩
  | change _ row => exact ⟨(ok.write row).known, (ok.write row).paired, (ok.write row).counted⟩
  | promote _ row => exact ⟨(ok.write row).known, (ok.write row).paired, (ok.write row).counted⟩
  | enter fresh _ _ _ entry _ _ _ _ counted =>
    have entered := ok.enter fresh entry counted
    exact ⟨entered.known, entered.paired, entered.counted⟩
  | delete stored _ _ counted =>
    have deleted := ok.delete stored counted
    exact ⟨deleted.known, deleted.paired, deleted.counted⟩
  | mint | dropEdge => exact ⟨ok.known, ok.paired, ok.counted⟩
  | @reserve _ w r counts n limit total _ _ there =>
    refine ⟨ok.known, fun v => ?_, fun v counts' here status => ?_⟩
    · exact (Table.get?_put_eq_none (by simp [there]) _ v).trans (ok.paired v)
    · rw [Table.get?_put] at here
      split_ifs at here with own
      · subst own
        cases here
        rw [← ok.counted v counts there status]
        cases status <;> rfl
      · exact ok.counted v counts' here status
  | @createWorkflow _ w r fresh =>
    refine ⟨fun id job v here member => ?_, fun v => ?_, fun v counts here status => ?_⟩
    · simp only [Table.get?_put]
      split_ifs
      · simp
      · exact ok.known id job v here member
    · simp only [Table.get?_put]
      split_ifs
      · simp
      · exact ok.paired v
    · rw [Table.get?_put] at here
      split_ifs at here with own
      · subst own
        cases here
        have none' : membersIn c.jobs v status = 0 := Table.count_eq_zero.mpr fun id job here => by
          by_contra member
          simp only [Bool.not_eq_false, decide_eq_true_eq] at member
          exact ok.known id job v here member.1 fresh
        change _ = (membersIn c.jobs v status : ℤ)
        rw [none']
        cases status <;> rfl
      · exact ok.counted v counts here status
  | changeWorkflow there =>
    refine ⟨fun id job v here member => ?_, fun v => ?_, ok.counted⟩
    · exact mt (Table.get?_put_eq_none (by simp [there]) _ v).mp (ok.known id job v here member)
    · exact (ok.paired v).trans (Table.get?_put_eq_none (by simp [there]) _ v).symm

end Members

end Taskq
