import Taskq.Invariants.Endings

/-! What later states keep of a workflow, who still joins one that is sealed, and that no member of a cancelled one is
started. -/
namespace Taskq
open Relational

variable {site : Site} {allowed : System → Env → Command → Prop} {s t : System} {env : Env} {db db' : Db}
  {command : Command} {F S : Set Label} {c d : Core} {l : Label} {id w : Uuid} {r r' r'' : Workflow} {job : Job}

section Kept

/-- A workflow keeps its end, its seal, the request to stop and its limit. -/
structure WorkflowKept (r r' : WorkflowRow) : Prop where
  status : r.status ≠ .running → r'.status = r.status
  closed : r.sealedAt.isSome = true → r'.sealedAt.isSome = true
  asked : r.cancelRequestedAt.isSome = true → r'.cancelRequestedAt.isSome = true
  limit : r'.memberLimit = r.memberLimit

/-- An ended workflow is sealed. -/
def WorkflowRow.EndsSealed (r : WorkflowRow) : Prop := r.status ≠ .running → r.sealedAt.isSome = true

theorem WorkflowKept.refl (r : WorkflowRow) : WorkflowKept r r := ⟨fun _ => rfl, id, id, rfl⟩

theorem WorkflowKept.trans {r r' r'' : WorkflowRow} (first : WorkflowKept r r') (second : WorkflowKept r' r'') :
    WorkflowKept r r'' where
  status halted := (second.status (first.status halted ▸ halted)).trans (first.status halted)
  closed := second.closed ∘ first.closed
  asked := second.asked ∘ first.asked
  limit := second.limit.trans first.limit

theorem WorkflowChange.kept {counts : Option MemberCounts} {old new : WorkflowRow}
    (changed : WorkflowChange counts old new) (ends : old.EndsSealed) : WorkflowKept old new ∧ new.EndsSealed := by
  cases changed with
  | touch => exact ⟨⟨fun _ => rfl, id, id, rfl⟩, ends⟩
  | «seal» => exact ⟨⟨fun _ => rfl, fun _ => rfl, id, rfl⟩, fun _ => rfl⟩
  | sealFinished _ _ _ unsealed =>
    exact ⟨⟨fun halted => absurd (ends halted) (by simp [unsealed]), fun _ => rfl, id, rfl⟩, fun _ => rfl⟩
  | cancel _ _ _ running =>
    refine ⟨⟨fun _ => rfl, fun _ => ?_, fun _ => rfl, rfl⟩, fun halted => absurd running halted⟩
    cases old.sealedAt <;> rfl
  | finish _ _ sealed' running => exact ⟨⟨fun halted => absurd running halted, id, id, rfl⟩, fun _ => sealed'⟩

theorem Steps.workflow_kept (steps : Steps S c d) (stored : c.workflows.get? w = some r) (ends : r.EndsSealed) :
    ∃ r', d.workflows.get? w = some r' ∧ WorkflowKept r.toWorkflowRow r'.toWorkflowRow ∧ r'.EndsSealed := by
  refine steps.invariant (I := fun d => ∃ r', d.workflows.get? w = some r' ∧
    WorkflowKept r.toWorkflowRow r'.toWorkflowRow ∧ r'.EndsSealed) (fun {l c d} _ h before => ?_) ⟨r, stored, .refl _, ends⟩
  obtain ⟨r', there, kept, ends'⟩ := before
  have move := h.workflow w
  rw [there] at move
  generalize d.workflows.get? w = after at move
  cases move with
  | same => exact ⟨r', rfl, kept, ends'⟩
  | change _ changed =>
    obtain ⟨kept', ends''⟩ := changed.kept ends'
    exact ⟨_, rfl, kept.trans kept', ends''⟩

theorem System.Run.workflow_kept (run : System.Run site allowed s t) (stored : s.db.workflows.get? w = some r)
    (ends : r.EndsSealed) : ∃ r', t.db.workflows.get? w = some r' ∧
      WorkflowKept r.toWorkflowRow r'.toWorkflowRow := by
  have kept : ∃ r', t.db.workflows.get? w = some r' ∧ WorkflowKept r.toWorkflowRow r'.toWorkflowRow ∧ r'.EndsSealed := by
    refine run.induction (I := fun t => ∃ r', t.db.workflows.get? w = some r' ∧
      WorkflowKept r.toWorkflowRow r'.toWorkflowRow ∧ r'.EndsSealed) ⟨r, stored, .refl _, ends⟩
      fun {t u env command} before _ next => ?_
    obtain ⟨r', there, kept, ends'⟩ := before
    obtain ⟨F, -, steps⟩ := next.steps
    obtain ⟨r'', there', kept', ends''⟩ := steps.workflow_kept there ends'
    exact ⟨r'', there', kept.trans kept', ends''⟩
  obtain ⟨r', there, kept, -⟩ := kept
  exact ⟨r', there, kept⟩

end Kept

section Joining

/-- How a job that the steps add came in. -/
structure Entered (S : Set Label) (c : Core) (id : Uuid) (job : Job) (parent : Option Uuid) (e : Core) : Prop where
  before : Steps S c e
  labelled : .enter id parent ∈ S
  entry : ∃ row : Job, Entry e row.toJobRow parent ∧ job.identity = row.identity

theorem Steps.entered (steps : Steps S c d) (absent : c.jobs.get? id = none) (here : d.jobs.get? id = some job) :
    ∃ parent e, Entered S c id job parent e := by
  refine (steps.invariant (I := fun d => Steps S c d ∧ ∀ job, d.jobs.get? id = some job →
    ∃ parent e, Entered S c id job parent e) (fun {l d e} labelled h before => ?_)
    ⟨.refl c, fun job here => by cases absent.symm.trans here⟩).2 job here
  obtain ⟨path, known⟩ := before
  refine ⟨path.trans (.single h labelled), ?_⟩
  have write {other : Uuid} {old new : Job} {m : Table Uuid MemberCounts} (row : RowWrite d other old new m)
      (jobs : e.jobs = d.jobs.put other new) : ∀ job, e.jobs.get? id = some job → ∃ parent e, Entered S c id job parent e := by
    intro job here
    rw [jobs, Table.get?_put] at here
    split_ifs at here with own
    · cases here
      subst own
      obtain ⟨parent, at', entered⟩ := known old row.stored
      obtain ⟨first, entry, same⟩ := entered.entry
      exact ⟨parent, at', entered.before, entered.labelled, first, entry, row.kept.trans same⟩
    · exact known job here
  cases h with
  | mint | dropEdge | reserve | createWorkflow | changeWorkflow => exact known
  | start row => exact write row rfl
  | change _ row => exact write row rfl
  | promote _ row => exact write row rfl
  | delete =>
    intro job here
    refine known job ?_
    rw [Table.get?_remove] at here
    split_ifs at here
    exact here
  | @enter _ other new parent _ _ _ _ _ _ entry =>
    intro job here
    rw [Table.get?_put] at here
    split_ifs at here with own
    · cases here
      subst own
      exact ⟨parent, d, path, labelled, new, entry, rfl⟩
    · exact known job here

/-- The job that a call completes. -/
def Command.completes : Command → Option Uuid
  | .completeJob jobId .. | .completeJobWithPolicy jobId .. => some jobId
  | _ => none

/-- A producer's job comes in where no workflow changes, a followup at the completion of its parent. -/
theorem Command.footprints_parent (used : F ∈ command.footprints env db) {parent : Option Uuid}
    (member : .enter id parent ∈ F) : parent = command.completes ∧ (parent = none → ∀ w, .createWorkflow w ∉ F ∧
      .changeWorkflow w ∉ F) := by
  cases command with
  | enqueue | tryEnqueue | enqueueMany =>
    cases used
    have own : db.nextUuid ≤ id ∧ parent = none := by simpa [admissions] using member
    exact ⟨own.2, fun _ w => by simp [admissions]⟩
  | finishAdmission =>
    cases used
    have own : db.nextUuid ≤ id ∧ parent = none := by simpa [receipts, admissions] using member
    exact ⟨own.2, fun _ w => by simp [receipts, admissions]⟩
  | fireSchedule =>
    cases used
    have own : db.nextUuid ≤ id ∧ parent = none := by simpa [firings, deletions, admissions] using member
    exact ⟨own.2, fun _ w => by simp [firings, deletions, admissions]⟩
  | completeJob jobId | completeJobWithPolicy jobId =>
    cases used
    have own : db.nextUuid ≤ id ∧ parent = some jobId := by
      simpa [completions, changesOf, promotions, followups] using member
    refine ⟨own.2, fun none' => ?_⟩
    rw [own.2] at none'
    cases none'
  | claimJobs | claimJobsWithPolicies =>
    obtain rfl | rfl := used <;>
      simp [starts, reclaims, expiries, dependents] at member
  | _ =>
    cases used
    simp [idleLabels, changesOf, dependents, sweeps, revocations, reclaims, expiries, redrives,
      promotions, creations, abandons, withdrawals, finalizations, ticks, deletions] at member

/-- A call that completes a job changes nothing, or the job was running. -/
theorem Command.exec_completes (run : command.exec env db = .ok db') {jobId : Uuid}
    (completes : command.completes = some jobId) : db' = db ∨
      ∃ job, db.jobs.get? jobId = some job ∧ job.status = .running := by
  have running {attemptId : Uuid} {specs : List Jsonb} {answer : SettleResult}
      (outcome : Completes env jobId attemptId specs db db' answer) : db' = db ∨
        ∃ job, db.jobs.get? jobId = some job ∧ job.status = .running := by
    obtain ⟨-, same, -⟩ | ⟨job, held, -⟩ := outcome
    · exact .inl same
    · obtain ⟨stored, runs, -⟩ := runningJob_eq_some.mp held
      exact .inr ⟨job, stored, runs⟩
  cases command with
  | completeJob =>
    cases completes
    obtain ⟨answer, run⟩ := map_snd_eq_ok.mp run
    exact running (completeJob_completes run)
  | completeJobWithPolicy =>
    cases completes
    obtain ⟨answer, run⟩ := map_snd_eq_ok.mp run
    exact running (completeJobWithPolicy_completes run)
  | _ => cases completes

/-- A sealed workflow is joined only by followups of a member that was still running. -/
theorem Command.exec_joins (run : command.exec env db = .ok db') (minted : Minted db.toCore)
    (stored : db.workflows.get? w = some r) (closed : r.sealedAt.isSome = true) (absent : db.jobs.get? id = none)
    (here : db'.jobs.get? id = some job) (member : job.workflowId = some w) :
    ∃ parent row, command.completes = some parent ∧ job.parentJobId = some parent ∧
      db.jobs.get? parent = some row ∧ row.status = .running ∧ row.workflowId = some w := by
  obtain ⟨F, used, steps⟩ := Command.exec_steps run
  obtain ⟨parent, e, entered⟩ := steps.entered absent here
  obtain ⟨row, entry, same⟩ := entered.entry
  obtain ⟨named, quiet⟩ := Command.footprints_parent used entered.labelled
  have joined : row.workflowId = some w := (congrArg Identity.workflowId same).symm.trans member
  cases entry with
  | producer _ _ workflow =>
    obtain ⟨r', there, unsealed, -⟩ := workflow w joined
    rw [entered.before.workflow_eq w (quiet rfl w), stored] at there
    cases there
    simp [unsealed] at closed
  | @continuation jobId settled _ there _ child _ _ workflow =>
    have own : job.parentJobId = some jobId := (congrArg Identity.parentJobId same).trans child
    obtain rfl | ⟨was, before, runs⟩ := Command.exec_completes run named.symm
    · cases absent.symm.trans here
    refine ⟨jobId, was, named.symm, own, before, runs, ?_⟩
    have old (p : Option Uuid) : Label.enter jobId p ∉ F := fun enters =>
      absurd (Command.footprints_enter used enters) (Nat.not_le.mpr (minted.jobs jobId (by simp [before])))
    obtain ⟨was', before', kept⟩ := entered.before.job jobId (C := fun i j => j.identity = i.identity) (fun _ => rfl)
      (fun first second => second.trans first) old (fun _ kept _ => kept) there
    cases before.symm.trans before'
    exact (congrArg Identity.workflowId kept).symm.trans (workflow w joined).1

end Joining

section Starting

variable {ledger : Table Uuid Attempt}

/-- Every attempt of a member of the workflow is in the earlier ledger. -/
def NoNewAttempt (ledger : Table Uuid Attempt) (w : Uuid) (c : Core) : Prop :=
  ∀ id job a status, c.jobs.get? id = some job → job.workflowId = some w →
    ledgerEntry c.attempts a = some (id, status) → ∃ status', ledgerEntry ledger a = some (id, status')

/-- A rewritten row is as much a member as before, and its ledger entries have the owners they had. -/
theorem NoNewAttempt.write {old : Job} {m : Table Uuid MemberCounts} (none' : NoNewAttempt ledger w c)
    (row : RowWrite c id old job m) (jobs : d.jobs = c.jobs.put id job)
    (owners : ∀ a other status, ledgerEntry d.attempts a = some (other, status) →
      ∃ status', ledgerEntry c.attempts a = some (other, status')) : NoNewAttempt ledger w d := by
  intro other job' a status here member entry
  obtain ⟨status', entry'⟩ := owners a other status entry
  rw [jobs, Table.get?_put] at here
  split_ifs at here with own
  · cases here
    subst own
    have kept : job.workflowId = old.workflowId := congrArg Identity.workflowId row.kept
    exact none' _ old a status' row.stored (kept ▸ member) entry'
  · exact none' other job' a status' here member entry'

theorem NoNewAttempt.step (none' : NoNewAttempt ledger w c) (ok : LedgerOk c) (stored : c.workflows.get? w = some r)
    (asked : r.cancelRequestedAt.isSome = true) (h : Transition l c d) : NoNewAttempt ledger w d := by
  cases h with
  | mint | dropEdge | reserve | createWorkflow | changeWorkflow => exact none'
  | @start _ id attempt old job m a row _ _ opened _ _ _ going =>
    intro other job' b status here member entry
    have apart : b ≠ attempt := by
      rintro rfl
      have own : ledgerEntry (c.attempts.put b a) b = some (id, .running) := by
        simp [ledgerEntry, opened]
      cases entry.symm.trans own
      rw [Table.get?_put_self] at here
      cases here
      have kept : job.workflowId = old.workflowId := congrArg Identity.workflowId row.kept
      rw [kept] at member
      simp [workflowCancelled, member, stored, asked] at going
    have entry' : ledgerEntry c.attempts b = some (other, status) := by
      simpa [ledgerEntry, Table.get?_put_of_ne _ _ apart] using entry
    have before : NoNewAttempt ledger w { c with jobs := c.jobs.put id job } :=
      none'.write row rfl fun _ _ status entry => ⟨status, entry⟩
    exact before other job' b status here member entry'
  | change _ row _ moves =>
    exact none'.write row rfl fun a other status entry => ((ok.ledgerMoves row.stored moves).1 a other).mp ⟨status, entry⟩
  | promote _ row => exact none'.write row rfl fun _ _ status entry => ⟨status, entry⟩
  | @delete _ id =>
    intro other job a status here member entry
    rw [Table.get?_remove] at here
    split_ifs at here
    exact none' other job a status here member (LedgerOk.ledgerEntry_keep.mp entry).1
  | @enter _ id new _ _ _ fresh =>
    intro other job a status here member entry
    rw [Table.get?_put] at here
    split_ifs at here with own
    · exact absurd fresh (own ▸ (ok.owned a other status entry).2)
    · exact none' other job a status here member entry

theorem Steps.noNewAttempt (steps : Steps S c d) (none' : NoNewAttempt ledger w c) (ok : Sound c)
    (stored : c.workflows.get? w = some r) (ends : r.EndsSealed) (asked : r.cancelRequestedAt.isSome = true) :
    NoNewAttempt ledger w d := by
  refine (steps.invariant (I := fun d => Steps S c d ∧ Sound d ∧ NoNewAttempt ledger w d)
    (fun {l d e} member h before => ?_) ⟨.refl c, ok, none'⟩).2.2
  obtain ⟨path, ok', none''⟩ := before
  obtain ⟨r', there, kept, -⟩ := path.workflow_kept stored ends
  exact ⟨path.trans (.single h member), ok'.step h, none''.step ok'.ledger there (kept.asked asked) h⟩

end Starting

end Taskq
