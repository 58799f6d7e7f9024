import Taskq.Invariants.Expiries

/-! Cancel requests bind, and retry budgets hold. -/
namespace Taskq
open Relational

/-- Failures are reported with a retry flag. -/
def flagged : System → Env → Command → Prop := fun _ _ command =>
  ∀ id, command.reportsFailure id ≠ some none

theorem System.Reachable.asked {site : Site} {allowed : System → Env → Command → Prop} {s : System}
    (reachable : System.Reachable site allowed s) :
    JobsOk (fun _ l => l.AskedOk) s.db.toCore :=
  reachable.core (fun _ => by simp [JobsOk, Db.installed]) fun ok h =>
    ok.step h (fun _ _ _ _ _ asked => nomatch asked) fun _ ok step => ok.step step

theorem System.Reachable.budget {site : Site} {allowed : System → Env → Command → Prop} {s : System}
    (reachable : System.Reachable site allowed s) : JobsOk Life.BudgetOk s.db.toCore :=
  reachable.core (fun _ => by simp [JobsOk, Db.installed]) fun ok h =>
    ok.step h (fun max _ _ positive _ => ⟨le_rfl, (by decide : (0 : ℤ) ≤ 1).trans positive,
      fun _ => Int.lt_of_lt_of_le one_pos positive⟩) fun positive ok step => ok.step positive step

/-- A job that was asked to stop runs or is over, now and after any further calls, and no attempt of
it starts any more; failures stay within the budget, and the streak of a job counts attempts that
expired in a row; what one call does to a budget, a streak or a verdict is what the law of calls
permits, and it records an attempt as expired only when the lease is over or an operator ends it. -/
theorem cancellation_and_budget {site : Site} {s : System}
    (reachable : System.Reachable site flagged s) :
    (∀ id job, s.db.jobs.get? id = some job →
      (job.cancelRequestedAt.isSome = true → job.status = .running ∨ job.status.terminal = true) ∧
      0 ≤ job.failureCount ∧ job.failureCount ≤ job.maxAttempts ∧ 0 ≤ job.expiryStreak ∧
      (job.status ≠ .cancelled → ExpiredInARow s.db.attempts id job.expiryStreak.toNat)) ∧
    (∀ t, System.Run site flagged s t → ∀ id old job, s.db.jobs.get? id = some old →
      old.cancelRequestedAt.isSome = true → t.db.jobs.get? id = some job →
      job.cancelRequestedAt.isSome = true ∧ job.attemptCount = old.attemptCount ∧
        (job.status = .running ∨ job.status.terminal = true)) ∧
    ∀ env command t, flagged s env command → System.Step site env command s t →
      ∀ id old job, s.db.jobs.get? id = some old → t.db.jobs.get? id = some job →
        CallLaw env command id old.toJobRow job.toJobRow ∧
        ∀ a, ledgerEntry t.db.attempts a = some (id, .expired) →
          ledgerEntry s.db.attempts a = some (id, .expired) ∨ command.expires env id old.toJobRow := by
  have ends {l : Life} (ok : l.AskedOk) (asked : l.cancelRequested = true) :
      l.status = .running ∨ l.status.terminal = true :=
    (ok asked).imp_right fun done => by obtain done | done := done <;> simp [done, JobStatus.terminal]
  refine ⟨fun id job stored => ⟨ends (reachable.asked id job stored), ?_⟩,
    fun t run id old job stored asked here => ?_, fun env command t _ next id old job stored here => ⟨?_, ?_⟩⟩
  · obtain ⟨low, high, -⟩ := reachable.budget id job stored
    have streak := reachable.streaksOk id job stored
    exact ⟨low, high, streak.positive, streak.counted⟩
  · obtain ⟨was, before, bound⟩ := run.job (reachable.minted.jobs id (by simp [stored])) Life.Bound.refl
      Life.Bound.trans Life.Bound.step here
    cases stored.symm.trans before
    obtain ⟨ok, kept⟩ := bound (reachable.asked id old stored)
    obtain ⟨still, count⟩ := kept asked
    exact ⟨still, count, ends ok still⟩
  · obtain ⟨was, before, -, law⟩ :=
      Command.exec_law next.exec (reachable.minted.jobs id (by simp [stored])) here
    cases stored.symm.trans before
    exact law
  · intro a entry
    exact Command.exec_records next.exec reachable.ledgerOk stored entry

/-- A job whose lease ran out three times, twice under the reaper and then under a tick, is
quarantined with budget left, and its last three attempts expired. -/
theorem cancellation_and_budget_quarantined : ∃ (s : System) (job : Job), s.db.jobs.get? 2 = some job ∧
    job.outcome = some "poison" ∧ job.failureCount < job.maxAttempts ∧ ExpiredInARow s.db.attempts 2 3 := by
  have played : System.plays .plain [(0, .ensureQueue (some "q") none), (0, .enqueue (.simple "q")),
      (0, .claimJobs (.simple "q" 1)), (seconds 3600, .reapExpired (some 10)),
      (seconds 36000, .claimJobs (.simple "q" 1)), (seconds 72000, .reapExpired (some 10)),
      (seconds 360000, .claimJobs (.simple "q" 1)), (seconds 720000, .tick (some 10))] (.installed .plain 0)
    (fun t => (t.db.jobs.get? 2).any fun job : Job => job.outcome = some "poison" ∧ job.status = .failed ∧
      job.failureCount < job.maxAttempts ∧ job.expiryStreak = 3) = true := by decide +kernel
  obtain ⟨s, run, there⟩ := System.plays_run flagged played fun _ call member id => by
    simp only [List.mem_cons, List.not_mem_nil, or_false] at member
    obtain rfl | rfl | rfl | rfl | rfl | rfl | rfl | rfl := member <;> simp [Command.reportsFailure]
  obtain ⟨job, stored, good⟩ := (Option.any_eq_true _ _).mp there
  obtain ⟨poison, failed, room, third⟩ := of_decide_eq_true good
  obtain ⟨-, -, -, -, row⟩ := (cancellation_and_budget ⟨0, run⟩).1 2 job stored
  have expired := row (by simp [failed])
  rw [third] at expired
  exact ⟨s, job, stored, poison, room, expired⟩

end Taskq
