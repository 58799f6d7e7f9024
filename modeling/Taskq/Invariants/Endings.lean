import Taskq.Invariants.Steps
import Taskq.Lifecycle.Redrives

/-! How workflows end: a workflow that has ended stays as it ended, is sealed, and has only ended members; one that is
asked to stop can only end cancelled, and starts none of its members any more. -/
namespace Taskq
open Relational

variable {c d : Core} {S : Set Label} {l : Label} {id w : Uuid}

section Closed

/-- An ended workflow is sealed and has no live member. A workflow that is asked to stop is sealed, and if it has ended
it is cancelled. -/
structure WorkflowsClosed (c : Core) : Prop where
  ended : ∀ w r, c.workflows.get? w = some r → r.status ≠ .running → r.sealedAt.isSome = true ∧
    ∀ id job, c.jobs.get? id = some job → job.workflowId = some w → job.status.terminal = true
  asked : ∀ w r, c.workflows.get? w = some r → r.cancelRequestedAt.isSome = true →
    r.sealedAt.isSome = true ∧ (r.status = .running ∨ r.status = .cancelled)

/-- Only a redrive brings an ended job back. -/
theorem Life.Step.terminal_stays {max : ℤ} {k : Change} {l l' : Life} (step : Life.Step max k l l') (other : k ≠ .redrive)
    (ended : l.status.terminal = true) : l'.status.terminal = true := by
  cases step with
  | redrive => exact absurd rfl other
  | adjust | link => exact ended
  | withdraw | succeed | bury | cancelRunning | expireBury | expireCancel => rfl
  | start _ _ queued => simp [queued, JobStatus.terminal] at ended
  | promote _ blocked => simp [blocked, JobStatus.terminal] at ended
  | beat _ running | retry _ running | snooze _ running | release _ running | expireRetry _ running
    | requestCancel _ running => simp [running, JobStatus.terminal] at ended

theorem MemberCounts.of_nonneg {counts : MemberCounts} (members : MembersTrue c)
    (counted : c.memberCounts.get? w = some counts) (status : JobStatus) : 0 ≤ counts.of status := by
  rw [members.counted w counts counted status]
  exact Int.natCast_nonneg _

/-- A workflow without unfinished members has no live member. -/
theorem MembersTrue.finished {counts : MemberCounts} (members : MembersTrue c)
    (counted : c.memberCounts.get? w = some counts) (done : counts.unfinished ≤ 0) {job : Job}
    (stored : c.jobs.get? id = some job) (member : job.workflowId = some w) : job.status.terminal = true := by
  by_contra live
  have present : membersIn c.jobs w job.status ≠ 0 := fun none' => by
    have absent := Table.count_eq_zero.mp none' id job stored
    simp [member] at absent
  have blocked := MemberCounts.of_nonneg members counted .blocked
  have queued := MemberCounts.of_nonneg members counted .queued
  have running := MemberCounts.of_nonneg members counted .running
  have own := members.counted w counts counted job.status
  simp only [MemberCounts.unfinished] at done
  cases status : job.status with
  | blocked | queued | running =>
    rw [status] at own present
    simp only [MemberCounts.of] at own blocked queued running
    omega
  | succeeded | failed | cancelled => exact live (by rw [status]; rfl)

/-- The step redrives no member of a workflow. -/
def SparesMembers (l : Label) (c : Core) : Prop :=
  ∀ id job, l = .change id .redrive → c.jobs.get? id = some job → job.workflowId = none

theorem WorkflowsClosed.write {old job : Job} {m : Table Uuid MemberCounts} {k : Change} (closed : WorkflowsClosed c)
    (row : RowWrite c id old job m) (step : Life.Step old.maxAttempts k old.life job.life)
    (spares : SparesMembers (.change id k) c) (jobs : d.jobs = c.jobs.put id job) (same : d.workflows = c.workflows) :
    WorkflowsClosed d := by
  refine ⟨fun w r stored halted => ?_, fun w r stored asked => closed.asked w r (same ▸ stored) asked⟩
  obtain ⟨sealed', members⟩ := closed.ended w r (same ▸ stored) halted
  refine ⟨sealed', fun other job' here member => ?_⟩
  rw [jobs, Table.get?_put] at here
  split_ifs at here
  · cases here
    have kept : job.workflowId = old.workflowId := congrArg Identity.workflowId row.kept
    refine step.terminal_stays (fun redrive => ?_) (members id old row.stored (kept ▸ member))
    have none' := spares id old (congrArg (Label.change id) redrive) row.stored
    rw [kept, none'] at member
    cases member
  · exact members other job' here member

theorem WorkflowsClosed.step (closed : WorkflowsClosed c) (members : MembersTrue c) (h : Transition l c d)
    (spares : SparesMembers l c) : WorkflowsClosed d := by
  cases h with
  | mint | dropEdge | reserve => exact ⟨closed.ended, closed.asked⟩
  | start row step => exact closed.write row step spares rfl rfl
  | change _ row step => exact closed.write row step spares rfl rfl
  | promote _ row step => exact closed.write row step spares rfl rfl
  | delete =>
    refine ⟨fun w r stored halted => ?_, closed.asked⟩
    obtain ⟨sealed', ended⟩ := closed.ended w r stored halted
    refine ⟨sealed', fun other job here => ended other job ?_⟩
    rw [Table.get?_remove] at here
    split_ifs at here
    exact here
  | enter _ _ _ _ entry =>
    refine ⟨fun w r stored halted => ?_, closed.asked⟩
    obtain ⟨sealed', ended⟩ := closed.ended w r stored halted
    refine ⟨sealed', fun other job here member => ?_⟩
    rw [Table.get?_put] at here
    split_ifs at here
    · cases here
      cases entry with
      | producer _ _ workflow =>
        obtain ⟨r', there, unsealed, -⟩ := workflow w member
        cases stored.symm.trans there
        simp [unsealed] at sealed'
      | continuation _ _ _ _ _ workflow =>
        obtain ⟨-, -, r', there, running⟩ := workflow w member
        cases stored.symm.trans there
        exact absurd running halted
    · exact ended other job here member
  | @createWorkflow _ w' _ _ _ running unsealed unasked =>
    refine ⟨fun w r stored halted => ?_, fun w r stored asked => ?_⟩
    · rw [Table.get?_put] at stored
      split_ifs at stored
      · cases stored
        exact absurd running halted
      · exact closed.ended w r stored halted
    · rw [Table.get?_put] at stored
      split_ifs at stored
      · cases stored
        simp [unasked] at asked
      · exact closed.asked w r stored asked
  | @changeWorkflow _ w' old new there changed =>
    refine ⟨fun w r stored halted => ?_, fun w r stored asked => ?_⟩
    · rw [Table.get?_put] at stored
      split_ifs at stored with own
      · cases stored
        subst own
        have before := closed.ended w old there
        generalize new.toWorkflowRow = row at changed halted ⊢
        cases changed with
        | touch => exact before halted
        | «seal» _ _ unsealed => exact absurd (before halted).1 (by simp [unsealed])
        | sealFinished counts _ _ _ counted done =>
          exact ⟨rfl, fun id job here member => members.finished counted done.le here member⟩
        | cancel _ _ _ running => exact absurd running halted
        | finish counts _ sealed' _ counted done =>
          exact ⟨sealed', fun id job here member => members.finished counted done here member⟩
      · exact closed.ended w r stored halted
    · rw [Table.get?_put] at stored
      split_ifs at stored with own
      · cases stored
        subst own
        have before := closed.asked w old there
        generalize new.toWorkflowRow = row at changed asked ⊢
        cases changed with
        | touch => exact before asked
        | «seal» _ _ unsealed => exact ⟨rfl, (before asked).2⟩
        | sealFinished _ _ _ unsealed => exact absurd (before asked).1 (by simp [unsealed])
        | cancel _ _ _ running =>
          refine ⟨?_, .inl running⟩
          cases old.sealedAt <;> rfl
        | finish _ _ sealed' _ _ _ => exact ⟨sealed', .inr (if_pos asked)⟩
      · exact closed.asked w r stored asked

end Closed

section Redrives

variable {env : Env} {db db' db₁ : Db} {actor : Option String} {smear : ℤ} {ids : List Uuid}

/-- The members of workflows are as they were. -/
def MembersKept (db db' : Db) : Prop :=
  db'.workflows = db.workflows ∧ ∀ id job w, db'.jobs.get? id = some job → job.workflowId = some w →
    db.jobs.get? id = some job

theorem MembersKept.refl (db : Db) : MembersKept db db := ⟨rfl, fun _ _ _ here _ => here⟩

theorem MembersKept.trans (first : MembersKept db db₁) (second : MembersKept db₁ db') : MembersKept db db' :=
  ⟨second.1.trans first.1, fun id job w here member => first.2 id job w (second.2 id job w here member) member⟩

/-- A job of no workflow is rewritten. -/
theorem MembersKept.put {job : Job} (workflows : db'.workflows = db.workflows) (jobs : db'.jobs = db.jobs.put id job)
    (alone : job.workflowId = none) : MembersKept db db' := by
  refine ⟨workflows, fun other job' w here member => ?_⟩
  rw [jobs, Table.get?_put] at here
  split_ifs at here
  · cases here
    rw [alone] at member
    cases member
  · exact here

theorem redriveJob_membersKept {reset : Bool} (run : redriveJob env id actor reset db = .ok db') :
    MembersKept db db' ∧ ∃ job, db'.jobs.get? id = some job ∧ job.workflowId = none := by
  obtain ⟨job, job', stored, redrivable, -, workflows, row, jobs⟩ := redriveJob_done run
  have alone : job'.workflowId = none := (congrArg JobRow.workflowId row).trans redrivable.2.1
  exact ⟨.put workflows jobs alone, job', by rw [jobs, Table.get?_put_self], alone⟩

theorem redriveOne_membersKept {done : Bool} (run : redriveOne env actor smear id db = .ok (done, db')) :
    MembersKept db db' := by
  unfold redriveOne at run
  dsimp only at run
  split at run
  · rename_i last redriven
    cases run
    obtain ⟨next, redrive, later⟩ := seq_eq_ok.mp redriven
    obtain ⟨kept, job, stored, alone⟩ := redriveJob_membersKept redrive
    split_ifs at later
    · rw [updateJob, stored] at later
      obtain ⟨job', _, _, _, _, row, -, -, frame⟩ := writeJob_frame later
      have workflows : db'.workflows = next.workflows := by rw [frame]
      have jobs : db'.jobs = next.jobs.put id job' := by rw [frame]
      exact kept.trans (.put workflows jobs ((congrArg JobRow.workflowId row).trans alone))
    · cases later
      exact kept
  · split_ifs at run
    cases run
    exact .refl db

theorem redriveAll_membersKept {answer : ℤ × ℤ} (run : redriveAll env actor smear ids db = .ok (answer, db')) :
    MembersKept db db' := by
  induction ids generalizing db answer with
  | nil =>
    cases run
    exact .refl _
  | cons id ids ih =>
    simp only [redriveAll, seq_eq_ok] at run
    obtain ⟨⟨done, next⟩, first, ⟨⟨redriven, skipped⟩, last⟩, rest, finish⟩ := run
    cases finish
    exact (redriveOne_membersKept first).trans (ih rest)

theorem redriveFailed_membersKept {queue : String} {limit smear : Option ℤ} {answer : ℤ × ℤ}
    (run : redriveFailed env queue limit actor smear db = .ok (answer, db')) : MembersKept db db' := by
  simp only [redriveFailed, seq_eq_ok] at run
  obtain ⟨-, -, -, -, loop⟩ := run
  exact redriveAll_membersKept loop

theorem WorkflowsClosed.kept (closed : WorkflowsClosed db.toCore) (kept : MembersKept db db') :
    WorkflowsClosed db'.toCore := by
  refine ⟨fun w r stored halted => ?_, fun w r stored asked => closed.asked w r (kept.1 ▸ stored) asked⟩
  obtain ⟨sealed', ended⟩ := closed.ended w r (kept.1 ▸ stored) halted
  exact ⟨sealed', fun id job here member => ended id job (kept.2 id job w here member) member⟩

end Redrives

section Calls

variable {env : Env} {db db' : Db} {command : Command} {F : Set Label}

/-- Only the two redrives revive a job. -/
theorem Command.footprints_redrive (used : F ∈ command.footprints env db) (member : .change id .redrive ∈ F) :
    command.mayRedrive id := by
  obtain plain | ⟨allowed, -⟩ := Command.footprints_change used member
  · cases plain
  · exact allowed

theorem Command.exec_closed (run : command.exec env db = .ok db') (ok : Sound db.toCore)
    (closed : WorkflowsClosed db.toCore) : WorkflowsClosed db'.toCore := by
  obtain ⟨F, used, steps⟩ := Command.exec_steps run
  by_cases revives : ∃ id, .change id .redrive ∈ F
  · obtain ⟨id, member⟩ := revives
    have redrives := Command.footprints_redrive used member
    cases command with
    | redriveJob => exact closed.kept (redriveJob_membersKept run).1
    | redriveFailed =>
      obtain ⟨answer, run⟩ := map_snd_eq_ok.mp run
      exact closed.kept (redriveFailed_membersKept run)
    | _ => exact redrives.elim
  · refine (steps.invariant (I := fun c => Sound c ∧ WorkflowsClosed c) (fun {l c d} member h both => ?_)
      ⟨ok, closed⟩).2
    refine ⟨both.1.step h, both.2.step both.1.members h fun id job label _ => ?_⟩
    exact absurd ⟨id, label ▸ member⟩ revives

theorem System.Reachable.closed {site : Site} {allowed : System → Env → Command → Prop} {s : System}
    (reachable : System.Reachable site allowed s) : WorkflowsClosed s.db.toCore := by
  refine (reachable.induction (I := fun s => Sound s.db.toCore ∧ WorkflowsClosed s.db.toCore) (fun now => ?_)
    fun {t u env command} ih _ next => ?_).2
  · exact ⟨.installed site now, fun _ _ here => (by cases here), fun _ _ here => (by cases here)⟩
  · obtain ⟨F, -, steps⟩ := next.steps
    exact ⟨ih.1.steps steps, Command.exec_closed next.exec ih.1 ih.2⟩

end Calls

end Taskq
