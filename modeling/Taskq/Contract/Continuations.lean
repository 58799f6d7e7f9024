import Taskq.Contract.Lifecycles
import Taskq.Invariants.Children

/-! Completing a job and admitting what continues it is one step: all of it or nothing, and each parent has at most one
child under a step, ever. -/
namespace Taskq
open Relational

variable {site : Site} {s t : System}

/-- A call of `complete_job`: the overload without or with a policy witness. -/
inductive CompleteCall where
  | plain (worker : Option String) (result stats followups : Option Jsonb)
  | withPolicy (worker : Option String) (result stats followups : Option Jsonb) (policyHash : Option String)

def CompleteCall.exec (env : Env) (jobId attemptId : Uuid) : CompleteCall → Db → Call (SettleResult × Db)
  | .plain worker result stats followups => completeJob env jobId attemptId worker result stats followups
  | .withPolicy worker result stats followups policyHash =>
    completeJobWithPolicy env jobId attemptId worker result stats followups policyHash

/-- The specs of the call. -/
def CompleteCall.specs : CompleteCall → List Jsonb
  | .plain _ _ _ followups | .withPolicy _ _ _ followups _ => followupSpecs followups

theorem CompleteCall.completes {env : Env} {jobId attemptId : Uuid} {call : CompleteCall} {db db' : Db}
    {answer : SettleResult} (run : call.exec env jobId attemptId db = .ok (answer, db')) :
    Completes env jobId attemptId call.specs db db' answer := by
  cases call with
  | plain => exact completeJob_completes run
  | withPolicy => exact completeJobWithPolicy_completes run

theorem System.Reachable.childrenOnce (reachable : System.Reachable site anyCall s) (parentId : Uuid) (name : String) :
    ChildrenOnce s parentId name := by
  refine (reachable.induction (I := fun s => System.Reachable site anyCall s ∧ ChildrenOnce s parentId name)
    (fun now => ⟨⟨now, .start⟩, Nat.zero_le 1, fun some' => absurd rfl some'⟩) fun {t u env command} ih permitted next => ?_).2
  exact ⟨ih.1.extend (.step .start permitted next), ih.2.step ih.1 permitted next⟩

/-- From any reachable state a completion raises, or it changes nothing and answers that the attempt is not (or no longer)
the one that runs the job, or it settles the running job as succeeded, and for each spec exactly one child exists, which
is new, has the fields of the spec and inherits from its parent as a member iff the spec asks for that. And over the whole
run each parent had at most one child under a step. -/
theorem continuations_atomic (reachable : System.Reachable site anyCall s) :
    (∀ (env : Env) (jobId attemptId : Uuid) (call : CompleteCall) (answer : SettleResult) (db : Db),
      call.exec env jobId attemptId s.db = .ok (answer, db) →
      (runningJob s.db.toCore jobId attemptId = none ∧ db = s.db ∧
        answer.outcome ∈ [SettleOutcome.lost, .alreadySettled, .settleConflict]) ∨
      ∃ job, runningJob s.db.toCore jobId attemptId = some job ∧ Completed env jobId job call.specs s.db db ∧
        answer = ⟨.ok, some .succeeded, none⟩) ∧
    ∀ parentId name, (s.childrenEver parentId name).length ≤ 1 :=
  ⟨fun _ _ _ _ _ _ run => (CompleteCall.completes run).completed reachable.chains,
    fun parentId name => (reachable.childrenOnce parentId name).once⟩

/-- One spec, of a detached followup. -/
def oneFollowup : CompleteCall :=
  .plain (some "w") none none (some (.arr [.build [("step", .str "next"), ("job_type", .str "t")]]))

/-- The job of a queue is completed with a followup: the child is there. -/
theorem continuations_atomic_one : ∃ (s : System) (job : Job) (answer : SettleResult) (db : Db),
    runningJob s.db.toCore 2 3 = some job ∧ Completed (.alone .plain 0 4) 2 job oneFollowup.specs s.db db ∧
    answer.outcome = .ok := by
  have played : (System.play .plain [(0, .ensureQueue (some "q") none), (0, .enqueue (.simple "q")),
      (0, .claimJobs (.simple "q" 1))] (.installed .plain 0)).toOption.any (fun s =>
        (oneFollowup.exec (.alone .plain 0 4) 2 3 s.db).toOption.any fun r => r.1.outcome = .ok) = true := by decide +kernel
  obtain ⟨s, first, there⟩ := (Option.any_eq_true _ _).mp played
  obtain ⟨⟨answer, db⟩, run, settled⟩ := (Option.any_eq_true _ _).mp there
  have settled : answer.outcome = .ok := of_decide_eq_true settled
  have reachable : System.Reachable .plain anyCall s :=
    ⟨0, System.play_run (toOption_eq_some.mp first) fun _ _ _ => trivial⟩
  obtain ⟨-, -, other⟩ | ⟨job, held, completed, -⟩ :=
    (continuations_atomic reachable).1 _ 2 3 oneFollowup answer db (toOption_eq_some.mp run)
  · rw [settled] at other
    simp at other
  · exact ⟨s, job, answer, db, held, completed, settled⟩

/-- A completion under an attempt that does not run the job neither raises nor settles it. -/
theorem continuations_answer_lost : ∃ (s : System) (answer : SettleResult), System.Reachable .plain anyCall s ∧
    oneFollowup.exec (.alone .plain 0 4) 2 7 s.db = .ok (answer, s.db) ∧
    ∃ job, s.db.jobs.get? 2 = some job ∧ job.status = .running := by
  have played : (System.play .plain [(0, .ensureQueue (some "q") none), (0, .enqueue (.simple "q")),
      (0, .claimJobs (.simple "q" 1))] (.installed .plain 0)).toOption.any (fun s =>
        ((oneFollowup.exec (.alone .plain 0 4) 2 7 s.db).toOption.any fun r => r.1.outcome = .lost) &&
        (s.db.jobs.get? 2).any (·.status = .running)) = true := by decide +kernel
  obtain ⟨s, first, there⟩ := (Option.any_eq_true _ _).mp played
  simp only [Bool.and_eq_true] at there
  obtain ⟨lost, running⟩ := there
  obtain ⟨⟨answer, db⟩, run, lost⟩ := (Option.any_eq_true _ _).mp lost
  obtain ⟨job, stored, running⟩ := (Option.any_eq_true _ _).mp running
  have reachable : System.Reachable .plain anyCall s :=
    ⟨0, System.play_run (toOption_eq_some.mp first) fun _ _ _ => trivial⟩
  have run := toOption_eq_some.mp run
  have lost : answer.outcome = .lost := of_decide_eq_true lost
  obtain ⟨-, rfl, -⟩ | ⟨-, -, -, rfl⟩ := (CompleteCall.completes run).completed reachable.chains
  · exact ⟨s, answer, reachable, run, job, stored, of_decide_eq_true running⟩
  · cases lost

end Taskq
