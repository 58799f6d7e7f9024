import Taskq.Invariants.Budget

/-! Jobs keep who they are: the step of a workflow has one job, and a job that is still stored is the one admitted. -/
namespace Taskq
open Relational

variable {site : Site} {allowed : System → Env → Command → Prop} {s t u : System} {core c d : Core} {l : Label} {w : Uuid}
  {key : Option String} {id : Uuid} {job : Job}

/-- No two jobs have the same step of a workflow. -/
def StepsUnique (core : Core) : Prop :=
  ∀ id job other job', core.jobs.get? id = some job → core.jobs.get? other = some job' → job.workflowId.isSome = true →
    job.workflowId = job'.workflowId → job.stepKey = job'.stepKey → id = other

theorem StepsUnique.write {old : Job} {counts : Table Uuid MemberCounts} (unique : StepsUnique c)
    (row : RowWrite c id old job counts) (jobs : d.jobs = c.jobs.put id job) : StepsUnique d := by
  have was {j : Uuid} {job' : Job} (here : d.jobs.get? j = some job') :
      ∃ before, c.jobs.get? j = some before ∧ job'.identity = before.identity := by
    rw [jobs, Table.get?_put] at here
    split_ifs at here with same
    · cases here
      exact ⟨old, same ▸ row.stored, row.kept⟩
    · exact ⟨job', here, rfl⟩
  intro i a j b first second member together steps
  obtain ⟨a', first', kept⟩ := was first
  obtain ⟨b', second', kept'⟩ := was second
  have workflow : a.workflowId = a'.workflowId := congrArg Identity.workflowId kept
  have workflow' : b.workflowId = b'.workflowId := congrArg Identity.workflowId kept'
  have key : a.stepKey = a'.stepKey := congrArg Identity.stepKey kept
  have key' : b.stepKey = b'.stepKey := congrArg Identity.stepKey kept'
  exact unique i a' j b' first' second' (workflow ▸ member) (workflow ▸ workflow' ▸ together) (key ▸ key' ▸ steps)

theorem StepsUnique.step (unique : StepsUnique c) (h : Transition l c d) : StepsUnique d := by
  cases h with
  | mint | dropEdge | reserve | createWorkflow | changeWorkflow => exact unique
  | start row => exact unique.write row rfl
  | change _ row => exact unique.write row rfl
  | promote _ row => exact unique.write row rfl
  | delete =>
    have kept {j k : Uuid} {job : Job} (here : (c.jobs.remove k).get? j = some job) : c.jobs.get? j = some job := by
      rw [Table.get?_remove] at here
      split_ifs at here
      exact here
    exact fun i a j b first second => unique i a j b (kept first) (kept second)
  | @enter _ fresh new _ _ _ absent _ _ _ _ _ free =>
    have other {j : Uuid} {job : Job} (here : c.jobs.get? j = some job) (member : new.workflowId.isSome = true) :
        ¬(job.workflowId = new.workflowId ∧ job.stepKey = new.stepKey) := by
      intro same
      have there : (j, job) ∈ c.jobs.select fun _ j => j.workflowId = new.workflowId ∧ j.stepKey = new.stepKey :=
        Table.mem_select.mpr ⟨here, decide_eq_true same⟩
      simp only [stepTaken, member, Bool.true_and, decide_eq_false_iff_not, not_not, List.length_eq_zero_iff] at free
      rw [free] at there
      cases there
    intro i a j b first second member together steps
    simp only [Table.get?_put] at first second
    split_ifs at first second with own own'
    · exact own.trans own'.symm
    · cases first
      exact absurd ⟨together.symm, steps.symm⟩ (other second member)
    · cases second
      exact absurd ⟨together, steps⟩ (other first (together ▸ member))
    · exact unique i a j b first second member together steps

theorem System.Reachable.stepsUnique (reachable : System.Reachable site allowed s) : StepsUnique s.db.toCore :=
  reachable.core (fun _ _ _ _ _ here => nomatch here) fun unique h => unique.step h

/-- The holder of a step is the job that has it. -/
theorem StepsUnique.holder (unique : StepsUnique core) (stored : core.jobs.get? id = some job)
    (member : job.workflowId = some w) (has : job.stepKey = key) : stepHolder core w key = some (id, job) := by
  have there : (id, job) ∈ core.jobs.select fun _ j => j.workflowId = some w ∧ j.stepKey = key :=
    Table.mem_select.mpr ⟨stored, decide_eq_true ⟨member, has⟩⟩
  obtain ⟨⟨other, job'⟩, tail, shape⟩ := List.exists_cons_of_ne_nil (List.ne_nil_of_mem there)
  have head : (other, job') ∈ core.jobs.select fun _ j => j.workflowId = some w ∧ j.stepKey = key := by
    rw [shape]
    exact List.mem_cons_self
  obtain ⟨stored', good⟩ := Table.mem_select.mp head
  have good : job'.workflowId = some w ∧ job'.stepKey = key := of_decide_eq_true good
  obtain rfl := unique id job other job' stored stored' (by simp [member]) (member.trans good.1.symm) (has.trans good.2.symm)
  cases stored.symm.trans stored'
  rw [stepHolder, shape, List.head?_cons]

/-- A job that is still stored is the job it was. -/
theorem System.Run.identity (run : System.Run site allowed t u) (minted : id < t.db.nextUuid)
    (here : u.db.jobs.get? id = some job) : ∃ was, t.db.jobs.get? id = some was ∧ job.identity = was.identity := by
  refine (run.induction (I := fun u => t.db.nextUuid ≤ u.db.nextUuid ∧ ∀ job, u.db.jobs.get? id = some job →
    ∃ was, t.db.jobs.get? id = some was ∧ job.identity = was.identity) ⟨le_rfl, fun job here => ⟨job, here, rfl⟩⟩
    fun {v x env command} ih _ next => ?_).2 job here
  obtain ⟨above, before⟩ := ih
  obtain ⟨F, -, steps⟩ := next.steps
  refine ⟨above.trans steps.nextUuid_le, fun job here => ?_⟩
  obtain ⟨mid, there, kept, -⟩ := Command.exec_law next.exec (minted.trans_le above) here
  obtain ⟨was, start, earlier⟩ := before mid there
  exact ⟨was, start, kept.trans earlier⟩

end Taskq
