import Taskq.Invariants.Ledger

/-! Attempts are fenced: at most one attempt of a job runs, the job knows which one, and a report
under any other attempt changes nothing. -/
namespace Taskq
open Relational

section Presented

/-- The job and the attempt that a worker's report names. -/
def Command.presents : Command → Option (Uuid × Uuid)
  | .heartbeat jobId attemptId .. | .completeJob jobId attemptId ..
  | .completeJobWithPolicy jobId attemptId .. | .failJob jobId attemptId ..
  | .snoozeJob jobId attemptId .. | .releaseJob jobId attemptId ..
  | .cancelRunningJob jobId attemptId .. => some (jobId, attemptId)
  | _ => none

variable {env : Env} {db db' : Db} {command : Command} {jobId attemptId : Uuid}

theorem Settles.superseded {own : List Change} (settles : Settles env own jobId attemptId db db')
    (gone : runningJob db.toCore jobId attemptId = none) : db' = db := by
  obtain ⟨-, same⟩ | ⟨job, held, -⟩ := settles
  · exact same
  · exact nomatch gone.symm.trans held

theorem Completes.superseded {specs : List Jsonb} {answer : SettleResult}
    (completes : Completes env jobId attemptId specs db db' answer)
    (gone : runningJob db.toCore jobId attemptId = none) : db' = db := by
  obtain ⟨-, same, -⟩ | ⟨job, held, -⟩ := completes
  · exact same
  · exact nomatch gone.symm.trans held

/-- A report under an attempt that does not run its job leaves the whole state as it was. -/
theorem Command.superseded (presented : command.presents = some (jobId, attemptId))
    (gone : runningJob db.toCore jobId attemptId = none) (run : command.exec env db = .ok db') :
    db' = db := by
  cases command <;> simp only [Command.presents, reduceCtorEq, Option.some.injEq, Prod.mk.injEq]
    at presented <;> obtain ⟨rfl, rfl⟩ := presented <;>
    obtain ⟨answer, run⟩ := map_snd_eq_ok.mp run
  case heartbeat =>
    obtain same | ⟨⟨job, held⟩, -⟩ := heartbeat_path run
    · exact same
    · exact nomatch gone.symm.trans held
  case completeJob => exact (completeJob_completes run).superseded gone
  case completeJobWithPolicy => exact (completeJobWithPolicy_completes run).superseded gone
  case failJob => exact (failJob_settles run).superseded gone
  case snoozeJob => exact (snoozeJob_settles run).superseded gone
  case releaseJob => exact (releaseJob_settles run).superseded gone
  case cancelRunningJob => exact (cancelRunningJob_settles run).superseded gone

end Presented

/-- The attempts of a job that the ledger shows as running. -/
def runningAttempts (db : Db) (id : Uuid) : List Uuid :=
  (db.attempts.select fun _ a => a.jobId = id ∧ a.status = .running).map Prod.fst

/-- A job runs under exactly one attempt, its current one and with a lease, or under none at all. -/
structure SoleAttempt (db : Db) (id : Uuid) (job : JobRow) : Prop where
  running : job.status = .running ↔
    (∃ a, runningAttempts db id = [a] ∧ job.currentAttemptId = some a) ∧
      job.leaseExpiresAt.isSome = true
  idle : job.status ≠ .running →
    job.leaseExpiresAt = none ∧ job.currentAttemptId = none ∧ runningAttempts db id = []
  counted : job.attemptCount = attemptsOf db.attempts id

theorem mem_runningAttempts {db : Db} {id a : Uuid} :
    a ∈ runningAttempts db id ↔ ledgerEntry db.attempts a = some (id, .running) := by
  simp only [runningAttempts, Table.mem_select_keys, decide_eq_true_eq, ledgerEntry,
    Option.map_eq_some_iff, Attempt.entry, Prod.mk.injEq]

theorem LedgerOk.runningAttempts {db : Db} (ok : LedgerOk db.toCore) {id : Uuid} {job : Job}
    (stored : db.jobs.get? id = some job) :
    runningAttempts db id = job.currentAttemptId.toList := by
  have members (a : Uuid) : a ∈ Taskq.runningAttempts db id ↔ a ∈ job.currentAttemptId.toList := by
    rw [mem_runningAttempts, Option.mem_toList]
    exact (ok.current id job stored a).symm
  have distinct : (Taskq.runningAttempts db id).Nodup := Table.select_keys_nodup _ _
  have perm := (List.perm_ext_iff_of_nodup distinct (by cases job.currentAttemptId <;> simp)).mpr members
  cases current : job.currentAttemptId with
  | none => simpa [current] using perm
  | some a => simpa [current] using perm

theorem LedgerOk.soleAttempt {db : Db} (ok : LedgerOk db.toCore) {id : Uuid} {job : Job}
    (stored : db.jobs.get? id = some job) : SoleAttempt db id job.toJobRow := by
  obtain ⟨current, lease⟩ := ok.shaped id job stored
  have entries := ok.runningAttempts stored
  change job.status = .running ↔ job.currentAttemptId.isSome = true at current
  change job.status = .running ↔ job.leaseExpiresAt.isSome = true at lease
  refine ⟨⟨fun runs => ⟨?_, lease.mp runs⟩, fun shape => lease.mpr shape.2⟩, fun idle => ?_,
    ok.counted id job stored⟩
  · obtain ⟨a, here⟩ := Option.isSome_iff_exists.mp (current.mp runs)
    exact ⟨a, by rw [entries, here, Option.toList_some], here⟩
  · have none : job.currentAttemptId = none := by simpa using mt current.mpr idle
    exact ⟨by simpa using mt lease.mpr idle, none, by rw [entries, none, Option.toList_none]⟩

/-- Every reachable state shows each job under one running attempt or none, no later call changes a
final attempt or drops an attempt of a job that stays, and a report under an attempt that is not the
job's current one changes nothing. -/
theorem attempts_fenced {site : Site} {s : System} (reachable : System.Reachable site anyCall s) :
    (∀ id job, s.db.jobs.get? id = some job → SoleAttempt s.db id job.toJobRow) ∧
    (∀ t, System.Run site anyCall s t → ∀ id job a row, s.db.jobs.get? id = some job →
      s.db.attempts.get? a = some row → row.jobId = id → t.db.jobs.get? id ≠ none →
      ∃ row', t.db.attempts.get? a = some row' ∧ row'.jobId = id ∧
        (row.status ≠ .running → row'.status = row.status)) ∧
    ∀ (command : Command) jobId attemptId, command.presents = some (jobId, attemptId) →
      (∀ job, s.db.jobs.get? jobId = some job → job.currentAttemptId ≠ some attemptId) →
      ∀ (env : Env) (db' : Db), command.exec env s.db = .ok db' → db' = s.db := by
  have ok := reachable.ledgerOk
  refine ⟨fun id job stored => ok.soleAttempt stored, fun t run id job a row stored entry own here => ?_,
    fun command jobId attemptId presented superseded env db' run => ?_⟩
  · have minted := reachable.minted.jobs id (by simp [stored])
    obtain ⟨-, kept⟩ := run.ledgerKept minted here
    have before : ledgerEntry s.db.attempts a = some (id, row.status) := by
      simp [ledgerEntry, entry, Attempt.entry, own]
    obtain ⟨status, after, final⟩ := kept a row.status before
    obtain ⟨row', there, same⟩ := Option.map_eq_some_iff.mp after
    simp only [Attempt.entry, Prod.mk.injEq] at same
    exact ⟨row', there, same.1, fun closed => same.2.trans (final closed)⟩
  · refine Command.superseded presented (runningJob_eq_none.mpr fun job stored => ?_) run
    exact .inr (superseded job stored)

/-- A job is claimed, snoozed at once and claimed again: two attempts, the second of them running. -/
theorem attempts_fenced_reclaimed : ∃ (s : System) (job : Job),
    s.db.jobs.get? 2 = some job ∧ SoleAttempt s.db 2 job.toJobRow ∧ attemptsOf s.db.attempts 2 = 2 := by
  have played : System.plays .plain [(0, .ensureQueue (some "q") none), (0, .enqueue (.simple "q")),
      (0, .claimJobs (.simple "q" 1)), (0, .snoozeJob 2 3 (some "w") (some 1) none none),
      (1000000, .claimJobs (.simple "q" 1))] (.installed .plain 0)
    (fun t => (t.db.jobs.get? 2).isSome && attemptsOf t.db.attempts 2 = 2) = true := by decide
  obtain ⟨s, run, there⟩ := System.plays_run anyCall played fun _ _ _ => trivial
  simp only [Bool.and_eq_true, decide_eq_true_eq] at there
  obtain ⟨job, stored⟩ := Option.isSome_iff_exists.mp there.1
  exact ⟨s, job, stored, (attempts_fenced ⟨0, run⟩).1 2 job stored, there.2⟩

end Taskq
