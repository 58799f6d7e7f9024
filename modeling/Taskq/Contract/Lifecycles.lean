import Taskq.Invariants.Admitted

/-! Workflows live safely: one that has ended stays as it ended, one that is sealed is joined only by followups, its
limit holds, and one that is asked to stop starts nothing and can only end cancelled. -/
namespace Taskq
open Relational

variable {site : Site} {allowed : System → Env → Command → Prop} {s t u : System} {env : Env} {command : Command}
  {w : Uuid} {r : Workflow}

/-- The job continues a member of the workflow that the call completes and that was running until then. -/
def Continued (command : Command) (before : Db) (w : Uuid) (job : Job) : Prop :=
  ∃ parent row, command.completes = some parent ∧ job.parentJobId = some parent ∧
    before.jobs.get? parent = some row ∧ row.status = .running ∧ row.workflowId = some w

theorem mem_entered {db db' : Db} {id : Uuid} {job : Job} : (id, job) ∈ entered db db' w ↔
    db'.jobs.get? id = some job ∧ db.jobs.get? id = none ∧ job.workflowId = some w := by
  simp only [entered, newJobs, List.mem_filter, Table.mem_select, Option.isNone_iff_eq_none, decide_eq_true_eq, and_assoc]

/-- Whoever joins a sealed workflow continues a running member. -/
theorem System.Step.continued (next : System.Step site env command s t) (reachable : System.Reachable site allowed s)
    (stored : s.db.workflows.get? w = some r) (closed : r.sealedAt.isSome = true) {id : Uuid} {job : Job}
    (joined : (id, job) ∈ entered s.db t.db w) : Continued command s.db w job := by
  obtain ⟨here, absent, member⟩ := mem_entered.mp joined
  exact Command.exec_joins next.exec reachable.minted stored closed absent here member

/-- An ended workflow has no running member, so that nobody joins it. -/
theorem System.Step.joins_ended (next : System.Step site env command s t) (reachable : System.Reachable site allowed s)
    (stored : s.db.workflows.get? w = some r) (ended : r.status ≠ .running) : t.membersEver w = s.membersEver w := by
  obtain ⟨sealed', halted⟩ := reachable.closed.ended w r stored ended
  have none' : entered s.db t.db w = [] := by
    refine List.eq_nil_iff_forall_not_mem.mpr ?_
    rintro ⟨id, job⟩ joined
    obtain ⟨parent, row, -, -, there, running, member⟩ := next.continued reachable stored sealed' joined
    have done := halted parent row there member
    rw [running] at done
    cases done
  cases next with
  | commit =>
    rw [System.membersEver, List.filter_append]
    exact (congrArg _ none').trans (List.append_nil _)

theorem System.Run.joins_ended (run : System.Run site allowed s t) (reachable : System.Reachable site allowed s)
    (stored : s.db.workflows.get? w = some r) (ended : r.status ≠ .running) : t.membersEver w = s.membersEver w := by
  induction run with
  | start => rfl
  | step before _ next ih =>
    have reached := reachable.extend before
    obtain ⟨r', there, kept⟩ := before.workflow_kept stored fun halted => (reachable.closed.ended w r stored halted).1
    exact (next.joins_ended reached there (by rw [kept.status ended]; exact ended)).trans ih

/-- No run starts a member of a workflow that is asked to stop. -/
theorem System.Run.starts_none (run : System.Run site allowed s t) (reachable : System.Reachable site allowed s)
    (stored : s.db.workflows.get? w = some r) (asked : r.cancelRequestedAt.isSome = true) :
    NoNewAttempt s.db.attempts w t.db.toCore := by
  have ends : r.EndsSealed := fun halted => (reachable.closed.ended w r stored halted).1
  induction run with
  | start => exact fun _ _ _ status _ _ entry => ⟨status, entry⟩
  | step before _ next ih =>
    have reached := reachable.extend before
    obtain ⟨F, -, steps⟩ := next.steps
    obtain ⟨r', there, kept⟩ := before.workflow_kept stored ends
    exact steps.noNewAttempt ih reached.sound there (fun halted => (reached.closed.ended w r' there halted).1)
      (kept.asked asked)

/-- From any reachable state on: a workflow that has ended keeps its status, has no live member and gains none; one that
is sealed or asked to stop is joined only by followups of a member that was still running; the members ever admitted are
as many as `admitted_total` says, within the limit; and of one that is asked to stop no member is ever claimed again, and
it can only end cancelled. -/
theorem workflow_lifecycle (reachable : System.Reachable site anyCall s) (run : System.Run site anyCall s t)
    (stored : s.db.workflows.get? w = some r) : ∃ r', t.db.workflows.get? w = some r' ∧
      (r.status ≠ .running → r'.status = r.status ∧ t.membersEver w = s.membersEver w ∧
        ∀ id job, t.db.jobs.get? id = some job → job.workflowId = some w → job.status.terminal = true) ∧
      (r.sealedAt.isSome = true ∨ r.cancelRequestedAt.isSome = true → ∀ env command u,
        System.Step site env command t u → ∀ id job, (id, job) ∈ entered t.db u.db w → Continued command t.db w job) ∧
      (∃ limit, r'.memberLimit = some limit ∧ ((t.membersEver w).length : ℤ) ≤ limit ∧
        (t.db.memberCounts.get? w).bind (·.admittedTotal) = some ((t.membersEver w).length : ℤ)) ∧
      (r.cancelRequestedAt.isSome = true → (r'.status = .running ∨ r'.status = .cancelled) ∧
        NoNewAttempt s.db.attempts w t.db.toCore) := by
  have ends : r.EndsSealed := fun halted => (reachable.closed.ended w r stored halted).1
  have reached := reachable.extend run
  obtain ⟨r', there, kept⟩ := run.workflow_kept stored ends
  refine ⟨r', there, fun ended => ?_, fun closed env command u next id job joined => ?_, ?_, fun asked => ?_⟩
  · have same := kept.status ended
    refine ⟨same, run.joins_ended reachable stored ended, ?_⟩
    exact (reached.closed.ended w r' there (by rw [same]; exact ended)).2
  · have closed' : r.sealedAt.isSome = true := closed.elim (fun h => h) fun asked => (reachable.closed.asked w r stored asked).1
    exact next.continued reached there (kept.closed closed') joined
  · obtain ⟨limit, total, limited, counted, room⟩ := reached.withinLimits w r' there
    have placed := reached.placed w
    rw [placesOf, counted, Option.getD_some] at placed
    exact ⟨limit, limited, placed ▸ room, placed ▸ counted⟩
  · exact ⟨(reached.closed.asked w r' there (kept.asked asked)).2, run.starts_none reachable stored asked⟩

/-- A server whose hash is one text of the right form: enough for members of workflows. -/
def Site.hashing : Site :=
  { Site.plain with sha256 := fun _ => "0000000000000000000000000000000000000000000000000000000000000000" }

/-- The workflow has ended, with one member that was ever admitted. -/
def endedWithOne (s : System) : Bool :=
  (s.db.workflows.get? 2).any (fun r => r.status = .cancelled) && (s.membersEver 2).length = 1

/-- A workflow that is cancelled while its only member runs ends once the member has completed. -/
theorem workflow_lifecycle_cancelled : ∃ (s : System) (r : Workflow), r.status = .cancelled ∧
    (∀ id job, s.db.jobs.get? id = some job → job.workflowId = some 2 → job.status.terminal = true) ∧
    (s.db.memberCounts.get? 2).bind (·.admittedTotal) = some 1 := by
  have played : System.plays .hashing [(0, .ensureQueue (some "q") none),
      (0, .createWorkflow (some "k") (some "batch") (some (.obj [])) (some ["q"]) (some "a")),
      (0, .enqueue { EnqueueArgs.simple "q" with workflowId := some 2, stepKey := some "one" }),
      (0, .claimJobs (.simple "q" 1)), (0, .cancelWorkflow 2 (some "a") none),
      (0, .completeJob 3 4 (some "w") none none none), (0, .finalizeWorkflows (some 10))]
    (.installed .hashing 0) endedWithOne = true := by decide +kernel
  obtain ⟨s, run, there⟩ := System.plays_run anyCall played fun _ _ _ => trivial
  simp only [endedWithOne, Bool.and_eq_true, decide_eq_true_eq] at there
  obtain ⟨ended, one'⟩ := there
  obtain ⟨r, stored, cancelled⟩ := (Option.any_eq_true _ _).mp ended
  have cancelled : r.status = .cancelled := of_decide_eq_true cancelled
  obtain ⟨r', -, halted, -, ⟨limit, -, -, counted⟩, -⟩ := workflow_lifecycle ⟨0, run⟩ .start stored
  refine ⟨s, r, cancelled, (halted (by rw [cancelled]; decide)).2.2, ?_⟩
  rw [counted, one']
  rfl

end Taskq
