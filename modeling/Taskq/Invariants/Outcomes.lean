import Taskq.Invariants.Endings

/-! What the status of an ended workflow says about its stored members. -/
namespace Taskq
open Relational

variable {c d : Core} {l : Label} {id w : Uuid} {job : Job}

section Verdict

theorem membersIn_pos (stored : c.jobs.get? id = some job) (member : job.workflowId = some w) :
    0 < membersIn c.jobs w job.status := by
  refine Nat.pos_of_ne_zero fun none' => ?_
  have absent := Table.count_eq_zero.mp none' id job stored
  simp [member] at absent

/-- The verdict over the counters of a workflow that has no unfinished member is right about each of them. -/
theorem MembersTrue.verdict {counts : MemberCounts} (members : MembersTrue c)
    (counted : c.memberCounts.get? w = some counts) (done : counts.unfinished ≤ 0)
    (stored : c.jobs.get? id = some job) (member : job.workflowId = some w) :
    (job.status = .failed → counts.verdict = .failed) ∧ (counts.verdict = .succeeded → job.status = .succeeded) := by
  have ended := members.finished counted done stored member
  have own := members.counted w counts counted job.status
  have present := membersIn_pos stored member
  constructor
  · intro failed
    rw [failed] at own present
    have positive : 0 < counts.failed := by
      change counts.failed = _ at own
      omega
    exact if_pos positive
  · intro verdict
    unfold MemberCounts.verdict at verdict
    split_ifs at verdict with none' none''
    cases status : job.status with
    | succeeded => rfl
    | failed =>
      rw [status] at own present
      change counts.failed = _ at own
      omega
    | cancelled =>
      rw [status] at own present
      change counts.cancelled = _ at own
      omega
    | blocked | queued | running =>
      rw [status] at ended
      cases ended

/-- Only a redrive moves a job that has ended. -/
theorem Life.Step.ended_stays {max : ℤ} {k : Change} {l l' : Life} (step : Life.Step max k l l') (other : k ≠ .redrive)
    (ended : l.status.terminal = true) : l'.status = l.status := by
  cases step with
  | redrive => exact absurd rfl other
  | adjust | link => rfl
  | withdraw _ _ _ idle =>
    obtain idle | idle | ⟨idle, -⟩ := idle
    · simp [idle, JobStatus.terminal] at ended
    · simp [idle, JobStatus.terminal] at ended
    · exact idle.symm
  | start _ _ idle | promote _ idle | beat _ idle | retry _ idle | bury _ _ idle | snooze _ idle | release _ idle
    | succeed _ idle | cancelRunning _ _ idle | expireRetry _ idle | expireBury _ idle | expireCancel _ idle
    | requestCancel _ idle => simp [idle, JobStatus.terminal] at ended

end Verdict

section Stored

/-- The status of an ended workflow is right about a member that ended so. -/
structure WorkflowRow.Tells (r : WorkflowRow) (status : JobStatus) : Prop where
  failed : r.cancelRequestedAt = none → status = .failed → r.status = .failed
  succeeded : r.status = .succeeded → status = .succeeded

/-- The status of an ended workflow is right about every member that is stored. -/
def VerdictsTrue (c : Core) : Prop :=
  ∀ w r, c.workflows.get? w = some r → r.status ≠ .running →
    ∀ id job, c.jobs.get? id = some job → job.workflowId = some w → r.Tells job.status

theorem VerdictsTrue.write {old job : Job} {m : Table Uuid MemberCounts} {k : Change} (verdicts : VerdictsTrue c)
    (closed : WorkflowsClosed c) (row : RowWrite c id old job m) (step : Life.Step old.maxAttempts k old.life job.life)
    (spares : SparesMembers (.change id k) c) (jobs : d.jobs = c.jobs.put id job) (same : d.workflows = c.workflows) :
    VerdictsTrue d := by
  intro w r stored halted other job' here member
  rw [same] at stored
  rw [jobs, Table.get?_put] at here
  split_ifs at here
  · cases here
    have kept : job.workflowId = old.workflowId := congrArg Identity.workflowId row.kept
    have before : old.workflowId = some w := kept ▸ member
    have other : k ≠ .redrive := by
      rintro rfl
      cases (spares id old rfl row.stored).symm.trans before
    have stays : job.status = old.status := step.ended_stays other ((closed.ended w r stored halted).2 id old row.stored before)
    rw [stays]
    exact verdicts w r stored halted id old row.stored before
  · exact verdicts w r stored halted other job' here member

theorem VerdictsTrue.step (verdicts : VerdictsTrue c) (closed : WorkflowsClosed c) (members : MembersTrue c)
    (h : Transition l c d) (spares : SparesMembers l c) : VerdictsTrue d := by
  cases h with
  | mint | dropEdge | reserve => exact verdicts
  | start row step => exact verdicts.write closed row step spares rfl rfl
  | change _ row step => exact verdicts.write closed row step spares rfl rfl
  | promote _ row step => exact verdicts.write closed row step spares rfl rfl
  | delete =>
    intro w r stored halted other job here
    rw [Table.get?_remove] at here
    split_ifs at here
    exact verdicts w r stored halted other job here
  | enter _ _ _ _ entry =>
    intro w r stored halted other job here member
    rw [Table.get?_put] at here
    split_ifs at here
    · cases here
      cases entry with
      | producer _ _ workflow =>
        obtain ⟨r', there, unsealed, -⟩ := workflow w member
        cases stored.symm.trans there
        exact absurd (closed.ended w r stored halted).1 (by simp [unsealed])
      | continuation _ _ _ _ _ workflow =>
        obtain ⟨-, -, r', there, running⟩ := workflow w member
        cases stored.symm.trans there
        exact absurd running halted
    · exact verdicts w r stored halted other job here member
  | @createWorkflow _ w' _ _ _ running =>
    intro w r stored halted
    rw [Table.get?_put] at stored
    split_ifs at stored
    · cases stored
      exact absurd running halted
    · exact verdicts w r stored halted
  | @changeWorkflow _ w' old new there changed =>
    intro w r stored halted id job here member
    rw [Table.get?_put] at stored
    split_ifs at stored with own
    · cases stored
      subst own
      generalize new.toWorkflowRow = row at changed halted ⊢
      cases changed with
      | touch =>
        have before := verdicts w old there halted id job here member
        exact ⟨before.failed, before.succeeded⟩
      | «seal» _ _ unsealed => exact absurd (closed.ended w old there halted).1 (by simp [unsealed])
      | sealFinished counts _ _ _ counted done =>
        obtain ⟨failed, succeeded⟩ := members.verdict counted done.le here member
        exact ⟨fun _ => failed, succeeded⟩
      | cancel _ _ _ running => exact absurd running halted
      | finish counts _ _ _ counted done =>
        obtain ⟨failed, succeeded⟩ := members.verdict counted done here member
        constructor
        · intro unasked was
          have unasked : old.cancelRequestedAt = none := unasked
          simp only [unasked, Option.isSome_none, Bool.false_eq_true, if_false]
          exact failed was
        · intro ended
          dsimp only at ended
          split_ifs at ended
          exact succeeded ended
    · exact verdicts w r stored halted id job here member

theorem VerdictsTrue.kept {db db' : Db} (verdicts : VerdictsTrue db.toCore) (kept : MembersKept db db') :
    VerdictsTrue db'.toCore := fun w r stored halted id job here member =>
  verdicts w r (kept.1 ▸ stored) halted id job (kept.2 id job w here member) member

end Stored

section Calls

variable {env : Env} {db db' : Db} {command : Command}

theorem Command.exec_verdicts (run : command.exec env db = .ok db') (ok : Sound db.toCore)
    (closed : WorkflowsClosed db.toCore) (verdicts : VerdictsTrue db.toCore) : VerdictsTrue db'.toCore := by
  obtain ⟨F, used, steps⟩ := Command.exec_steps run
  by_cases revives : ∃ id, .change id .redrive ∈ F
  · obtain ⟨id, member⟩ := revives
    have redrives := Command.footprints_redrive used member
    cases command with
    | redriveJob => exact verdicts.kept (redriveJob_membersKept run).1
    | redriveFailed =>
      obtain ⟨answer, run⟩ := map_snd_eq_ok.mp run
      exact verdicts.kept (redriveFailed_membersKept run)
    | _ => exact redrives.elim
  · refine (steps.invariant (I := fun c => Sound c ∧ WorkflowsClosed c ∧ VerdictsTrue c) (fun {l c d} member h all => ?_)
      ⟨ok, closed, verdicts⟩).2.2
    obtain ⟨ok', closed', verdicts'⟩ := all
    have spares : SparesMembers l c := fun id job label _ => absurd ⟨id, label ▸ member⟩ revives
    exact ⟨ok'.step h, closed'.step ok'.members h spares, verdicts'.step closed' ok'.members h spares⟩

theorem System.Reachable.verdicts {site : Site} {allowed : System → Env → Command → Prop} {s : System}
    (reachable : System.Reachable site allowed s) : VerdictsTrue s.db.toCore := by
  refine (reachable.induction (I := fun s => Sound s.db.toCore ∧ WorkflowsClosed s.db.toCore ∧ VerdictsTrue s.db.toCore)
    (fun now => ?_) fun {t u env command} ih _ next => ?_).2.2
  · exact ⟨.installed site now, ⟨fun _ _ here => (by cases here), fun _ _ here => (by cases here)⟩,
      fun _ _ here => (by cases here)⟩
  · obtain ⟨F, -, steps⟩ := next.steps
    exact ⟨ih.1.steps steps, Command.exec_closed next.exec ih.1 ih.2.1, Command.exec_verdicts next.exec ih.1 ih.2.1 ih.2.2⟩

end Calls

end Taskq
