import Taskq.Invariants.Counters

/-! The maintained counters equal the truth. -/
namespace Taskq
open Relational

/-- Counters that tell the truth about the rows that are there. -/
structure Backfilled (db : Db) : Prop where
  queues : CountersTrue db
  members : MembersTrue db.toCore

theorem Backfilled.installed (site : Site) (now : Time) : Backfilled (Db.installed site now) := by
  refine ⟨fun queue status active => ?_, fun id job w here => ?_, fun w => ⟨fun _ => rfl, fun _ => rfl⟩,
    fun w counts here => ?_⟩
  · cases status <;> simp_all [JobStatus.active, JobStatus.terminal] <;> rfl
  · cases here
  · cases here

/-- No floor at zero binds when the stored job leaves its status. -/
def Unclamped (db : Db) : Prop :=
  ∀ id old, db.jobs.get? id = some old → ∀ status, status.active = true →
    0 ≤ (db.countersOf old.queue).live status - one (old.status = status)

theorem CountersTrue.unclamped {db : Db} (ok : CountersTrue db) : Unclamped db := by
  intro id old stored status active
  have counted := ok.counted stored active old.queue
  simp only [true_and] at counted
  omega

/-- The transitions of a run that a cumulative counter of a queue counts. -/
def transitions (queue : String) (k : Tally) (log : List Record) : ℕ :=
  (log.flatMap (·.entries)).countP (k.counts queue)

variable {site : Site} {s t : System}

theorem Made.counters {env : Env} {entries : List Logged} {db db' : Db} (made : Made env entries db db')
    (ok : CountersTrue db) : CountersTrue db' ∧ ∀ queue k,
      (db'.countersOf queue).total k = (db.countersOf queue).total k + entries.countP (k.counts queue) := by
  obtain statements | ⟨rfl, conf⟩ := made
  · exact statements.counters ok
  · obtain ⟨_, _, _, _, rfl⟩ := conf
    exact ⟨ok, fun queue k => by simp [Db.countersOf]⟩

theorem System.Run.backfilled (run : System.Run site anyCall s t) (backfilled : Backfilled s.db) :
    Backfilled t.db := by
  refine run.induction (I := fun t => Backfilled t.db) backfilled fun ih _ next => ?_
  obtain ⟨entries, made⟩ := Command.made next.exec
  obtain ⟨F, -, steps⟩ := next.steps
  exact ⟨(made.counters ih.queues).1, steps.invariant (fun _ h ok => ok.step h) ih.members⟩

theorem System.History.totals {log : List Record} (history : System.History site anyCall s log t)
    (backfilled : Backfilled s.db) (queue : String) (k : Tally) :
    (t.db.countersOf queue).total k =
      (s.db.countersOf queue).total k + transitions queue k log := by
  induction history with
  | start => simp [transitions]
  | step before _ _ made ih =>
    have ok := (before.run.backfilled backfilled).queues
    rw [(made.counters ok).2, ih]
    simp [transitions, add_assoc]

/-- From counters that tell the truth every run leads to counters that do, for queues after every
statement of every call and for workflows, and the totals grow by the transitions of the run. -/
theorem counters_equal_truth (backfilled : Backfilled s.db) (run : System.Run site anyCall s t) :
    (∀ queue status, status.active = true →
      (t.db.countersOf queue).live status = jobsIn t.db.jobs queue status) ∧
    (∀ w counts, t.db.memberCounts.get? w = some counts →
      ∀ status, counts.of status = membersIn t.db.jobs w status) ∧
    (∀ env entries db, Statements env entries t.db db → CountersTrue db ∧ Unclamped db) ∧
    (∃ log, System.History site anyCall s log t) ∧
    ∀ log, System.History site anyCall s log t → ∀ queue k,
      (t.db.countersOf queue).total k = (s.db.countersOf queue).total k + transitions queue k log := by
  have reached := run.backfilled backfilled
  refine ⟨reached.queues, reached.members.counted, fun env entries db statements => ?_, run.history,
    fun log history => history.totals backfilled⟩
  have ok := (statements.counters reached.queues).1
  exact ⟨ok, ok.unclamped⟩

/-- One job enqueued, claimed and snoozed: it counts as queued, and as requeued once. -/
theorem counters_equal_truth_snoozed : ∃ t : System, jobsIn t.db.jobs "q" .queued = 1 ∧
    (t.db.countersOf "q").live .queued = jobsIn t.db.jobs "q" .queued := by
  have played : System.plays .plain [(0, .ensureQueue (some "q") none), (0, .enqueue (.simple "q")),
      (0, .claimJobs (.simple "q" 1)), (0, .snoozeJob 2 3 (some "w") (some 1) none none)]
    (.installed .plain 0) (fun t => jobsIn t.db.jobs "q" .queued = 1) = true := by decide
  obtain ⟨t, run, there⟩ := System.plays_run anyCall played fun _ _ _ => trivial
  exact ⟨t, by simpa using there,
    (counters_equal_truth (Backfilled.installed .plain 0) run).1 "q" .queued rfl⟩

end Taskq
