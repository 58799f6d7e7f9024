import Taskq.Lifecycle.Transition

/-! A transition seen from one job and from one workflow: nearly always nothing, else one of the
moves that its label names. -/
namespace Taskq
open Relational

variable {l : Label} {c d : Core} {S : Set Label}

section Jobs

/-- What a transition with this label may do to the row of a job. -/
inductive RowMove (l : Label) (id : Uuid) : Option Job → Option Job → Prop
  | same (row : Option Job) : RowMove l id row row
  | change {k : Change} {old job : Job} (label : l = .change id k) (range : job.InRange)
      (kept : job.identity = old.identity) (step : Life.Step old.maxAttempts k old.life job.life) :
      RowMove l id (some old) (some job)
  | delete {old : Job} (label : l = .delete id) (terminal : old.status.terminal = true) :
      RowMove l id (some old) none
  | enter {job : Job} {parent : Option Uuid} {parents : List Uuid} (label : l = .enter id parent)
      (range : job.InRange)
      (born : job.life = .fresh (if parents = [] then .queued else .blocked) parents.length) :
      RowMove l id none (some job)

theorem RowWrite.row {id : Uuid} {old job : Job} {m : Table Uuid MemberCounts} {k : Change}
    (row : RowWrite c id old job m) (step : Life.Step old.maxAttempts k old.life job.life)
    (other : Uuid) :
    RowMove (.change id k) other (c.jobs.get? other) ((c.jobs.put id job).get? other) := by
  rw [Table.get?_put]
  split_ifs with same
  · subst same
    rw [row.stored]
    exact .change rfl row.range row.kept step
  · exact .same _

theorem Transition.row (h : Transition l c d) (id : Uuid) :
    RowMove l id (c.jobs.get? id) (d.jobs.get? id) := by
  cases h with
  | start row step => exact row.row step id
  | change _ row step => exact row.row step id
  | promote _ row step => exact row.row step id
  | delete stored terminal =>
    simp only [Table.get?_remove]
    split_ifs with same
    · subst same
      rw [stored]
      exact .delete rfl terminal
    · exact .same _
  | enter fresh _ range born =>
    simp only [Table.get?_put]
    split_ifs with same
    · subst same
      rw [fresh]
      exact .enter rfl range born
    · exact .same _
  | mint | dropEdge | reserve | createWorkflow | changeWorkflow => exact .same _

/-- A relation on rows that every move of the set respects relates a job's rows at the ends. -/
theorem Steps.row {R : Option Job → Option Job → Prop} (id : Uuid) (refl : ∀ r, R r r)
    (trans : ∀ {r s t}, R r s → R s t → R r t) (move : ∀ {l r s}, l ∈ S → RowMove l id r s → R r s)
    (steps : Steps S c d) : R (c.jobs.get? id) (d.jobs.get? id) :=
  steps.relates (R := fun c d => R (c.jobs.get? id) (d.jobs.get? id)) (fun _ => refl _) trans
    fun labelled h => move labelled (h.row id)

/-- Without a label for its entry no job appears. -/
theorem Steps.absent {id : Uuid} (steps : Steps S c d) (closed : ∀ p, .enter id p ∉ S)
    (gone : c.jobs.get? id = none) : d.jobs.get? id = none := by
  refine steps.row (R := fun r s => r = none → s = none) id (fun _ h => h)
    (fun first second h => second (first h)) (fun member move gone => ?_) gone
  cases move with
  | same => exact gone
  | change label => cases gone
  | delete => rfl
  | enter label => exact absurd (label ▸ member) (closed _)

/-- Without a label for the job its row stays. -/
theorem Steps.row_eq {id : Uuid} (steps : Steps S c d)
    (quiet : (∀ k, .change id k ∉ S) ∧ .delete id ∉ S ∧ ∀ p, .enter id p ∉ S) :
    d.jobs.get? id = c.jobs.get? id := by
  refine steps.row (R := fun r s => s = r) id (fun _ => rfl)
    (fun first second => second.trans first) fun member move => ?_
  cases move with
  | same => rfl
  | change label => exact absurd (label ▸ member) (quiet.1 _)
  | delete label => exact absurd (label ▸ member) quiet.2.1
  | enter label => exact absurd (label ▸ member) (quiet.2.2 _)

/-- Without a deletion of the job its row stays, whatever it becomes. -/
theorem Steps.present {id : Uuid} (steps : Steps S c d) (kept : .delete id ∉ S)
    (here : c.jobs.get? id ≠ none) : d.jobs.get? id ≠ none := by
  refine steps.row (R := fun r s => r ≠ none → s ≠ none) id (fun _ h => h)
    (fun first second h => second (first h)) (fun member move h => ?_) here
  cases move with
  | same => exact h
  | change => simp
  | delete label => exact absurd (label ▸ member) kept
  | enter => simp

/-- A reflexive and transitive relation that every change of the set respects relates the rows of a
job that no label of the set admits: if it is there at the end, it was there at the start. -/
theorem Steps.job {C : Job → Job → Prop} (id : Uuid) (steps : Steps S c d) (refl : ∀ j, C j j)
    (trans : ∀ {i j k}, C i j → C j k → C i k) (old : ∀ p, .enter id p ∉ S)
    (change : ∀ {k i j}, .change id k ∈ S → j.identity = i.identity →
      Life.Step i.maxAttempts k i.life j.life → C i j)
    {job : Job} (here : d.jobs.get? id = some job) : ∃ was, c.jobs.get? id = some was ∧ C was job := by
  refine steps.row (R := fun r s => ∀ job, s = some job → ∃ was, r = some was ∧ C was job) id
    (fun _ job h => ⟨job, h, refl job⟩) (fun first second job h => ?_)
    (fun {l r s} member move job h => ?_) job here
  · obtain ⟨mid, between, later⟩ := second job h
    obtain ⟨was, before, earlier⟩ := first mid between
    exact ⟨was, before, trans earlier later⟩
  · cases move with
    | same => exact ⟨job, h, refl job⟩
    | change label _ kept step =>
      cases h
      exact ⟨_, rfl, change (label ▸ member) kept step⟩
    | delete => cases h
    | enter label => exact absurd (label ▸ member) (old _)

/-- What every life that a stored row starts with has, and every step keeps, every stored row has. -/
def JobsOk (P : ℤ → Life → Prop) (c : Core) : Prop :=
  ∀ id job, c.jobs.get? id = some job → P job.maxAttempts job.life

theorem JobsOk.step {P : ℤ → Life → Prop} (ok : JobsOk P c) (h : Transition l c d)
    (fresh : ∀ (max : ℤ) status pending, 1 ≤ max → status = .queued ∨ status = .blocked →
      P max (.fresh status pending))
    (step : ∀ {max k l l'}, 1 ≤ max → P max l → Life.Step max k l l' → P max l') : JobsOk P d := by
  have bound (job : Job) : 1 ≤ job.maxAttempts := by
    have parts := job.checks_parts.1
    simp only [JobRow.columnsOk, Bool.and_eq_true, decide_eq_true_eq] at parts
    exact parts.1.1.2
  intro id job here
  have move := h.row id
  rw [here] at move
  generalize before : c.jobs.get? id = was at move
  cases move with
  | same => exact ok id job before
  | change _ _ kept next =>
    have same : job.maxAttempts = _ := congrArg Identity.maxAttempts kept
    rw [same]
    exact step (bound _) (ok id _ before) next
  | enter _ _ born =>
    rw [born]
    exact fresh _ _ _ (bound job) (by split_ifs <;> simp)

end Jobs

section Workflows

/-- What a transition with this label may do to the row of a workflow. -/
inductive WorkflowMove (l : Label) (w : Uuid) (counts : Option MemberCounts) :
    Option Workflow → Option Workflow → Prop
  | same (row : Option Workflow) : WorkflowMove l w counts row row
  | change {old r : Workflow} (label : l = .changeWorkflow w)
      (changed : WorkflowChange counts old.toWorkflowRow r.toWorkflowRow) :
      WorkflowMove l w counts (some old) (some r)
  | create {r : Workflow} (label : l = .createWorkflow w) (running : r.status = .running)
      (unsealed : r.sealedAt = none) (unasked : r.cancelRequestedAt = none)
      (limited : r.memberLimit.isSome) : WorkflowMove l w counts none (some r)

theorem Transition.workflow (h : Transition l c d) (w : Uuid) :
    WorkflowMove l w (c.memberCounts.get? w) (c.workflows.get? w) (d.workflows.get? w) := by
  cases h with
  | createWorkflow fresh _ running unsealed unasked limited =>
    simp only [Table.get?_put]
    split_ifs with same
    · subst same
      rw [fresh]
      exact .create rfl running unsealed unasked limited
    · exact .same _
  | changeWorkflow stored changed =>
    simp only [Table.get?_put]
    split_ifs with same
    · subst same
      rw [stored]
      exact .change rfl changed
    · exact .same _
  | mint | start | change | promote | dropEdge | delete | enter | reserve => exact .same _

/-- Without workflow labels no workflow changes. -/
theorem Steps.workflow_eq (w : Uuid) (steps : Steps S c d)
    (quiet : .createWorkflow w ∉ S ∧ .changeWorkflow w ∉ S) :
    d.workflows.get? w = c.workflows.get? w := by
  refine steps.relates (R := fun c d => d.workflows.get? w = c.workflows.get? w) (fun _ => rfl)
    (fun first second => second.trans first) fun {l c d} labelled h => ?_
  have move := h.workflow w
  generalize c.workflows.get? w = before at move
  generalize d.workflows.get? w = after at move
  cases move with
  | same => rfl
  | change label => exact absurd (label ▸ labelled) quiet.2
  | create label => exact absurd (label ▸ labelled) quiet.1

end Workflows

/-- Identifiers handed out and not used. -/
theorem Steps.mints (minted : Label.mint ∈ S) (c : Core) (n : ℕ) :
    Steps S c { c with nextUuid := c.nextUuid + n } := by
  induction n with
  | zero => exact .refl _
  | succ n ih => exact ih.trans (.single (.mint _) minted)

theorem Transition.nextUuid_le (h : Transition l c d) : c.nextUuid ≤ d.nextUuid := by
  cases h with
  | mint => exact Nat.le_succ _
  | start | change | promote | dropEdge | delete | enter | reserve | createWorkflow | changeWorkflow =>
    exact le_rfl

theorem Steps.nextUuid_le (steps : Steps S c d) : c.nextUuid ≤ d.nextUuid :=
  steps.relates (R := fun c d => c.nextUuid ≤ d.nextUuid) (fun _ => le_rfl) le_trans
    fun _ h => h.nextUuid_le

end Taskq
