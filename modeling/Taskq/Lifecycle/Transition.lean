import Taskq.Library.Labelled
import Taskq.Lifecycle.Life

/-! The calls seen from the tables in which jobs live. A transition is one statement, or a group of
statements that belongs together, with the guards under which the functions make it; a call is a
sequence of transitions whose labels say which of them it may make. -/
namespace Taskq
open Relational

section Ledger

/-- Whose an attempt is and how it stands. -/
def Attempt.entry (a : Attempt) : Uuid × AttemptStatus := (a.jobId, a.status)

/-- What the ledger says about an attempt. -/
def ledgerEntry (t : Table Uuid Attempt) (a : Uuid) : Option (Uuid × AttemptStatus) :=
  (t.get? a).map Attempt.entry

/-- The ledger says the same about every attempt. -/
def SameLedger (t t' : Table Uuid Attempt) : Prop := ∀ a, ledgerEntry t' a = ledgerEntry t a

/-- A running attempt takes a final status. -/
def closedEntry (status : AttemptStatus) (e : Uuid × AttemptStatus) : Uuid × AttemptStatus :=
  (e.1, if e.2 = .running then status else e.2)

/-- One attempt is closed, every other entry stays. -/
def ClosesEntry (attempt : Uuid) (status : AttemptStatus) (t t' : Table Uuid Attempt) : Prop :=
  ∀ a, ledgerEntry t' a =
    if a = attempt then (ledgerEntry t a).map (closedEntry status) else ledgerEntry t a

/-- The ledger after a change of a job: its attempt is closed when the change closes it. -/
def LedgerMoves (k : Change) (old : JobRow) (t t' : Table Uuid Attempt) : Prop :=
  match k.closes with
  | none => SameLedger t t'
  | some status => ∃ attempt, old.currentAttemptId = some attempt ∧ ClosesEntry attempt status t t'

theorem SameLedger.refl (t : Table Uuid Attempt) : SameLedger t t := fun _ => rfl

theorem SameLedger.trans {t u v : Table Uuid Attempt} (first : SameLedger t u)
    (second : SameLedger u v) : SameLedger t v := fun a => (second a).trans (first a)

theorem ClosesEntry.then_same {attempt : Uuid} {status : AttemptStatus} {t u v : Table Uuid Attempt}
    (first : ClosesEntry attempt status t u) (second : SameLedger u v) :
    ClosesEntry attempt status t v := fun a => (second a).trans (first a)

end Ledger

/-- One stored row of `jobs` is rewritten: the new row is in range, keeps its identity, and the
counts of its workflow follow. -/
structure RowWrite (c : Core) (id : Uuid) (old job : Job) (m : Table Uuid MemberCounts) : Prop where
  stored : c.jobs.get? id = some old
  range : job.InRange
  kept : job.identity = old.identity
  counted : updateWorkflowMemberCounts c.workflows old.toJobRow job.toJobRow c.memberCounts = .ok m

/-- How a new job comes in: from a producer, or as the continuation of a job that just succeeded. -/
inductive Entry (c : Core) (job : JobRow) : Option Uuid → Prop
  | producer (key : engineReserved job.idempotencyKey = false) (step : job.stepKey.all isStepKey)
      (workflow : ∀ w, job.workflowId = some w → ∃ r, c.workflows.get? w = some r ∧
        r.sealedAt = none ∧ job.continuationPolicyHash = r.continuationPolicyHash) :
      Entry c job none
  | continuation {id : Uuid} {parent : Job} {step : String}
      (stored : c.jobs.get? id = some parent) (succeeded : parent.status = .succeeded)
      (child : job.parentJobId = some id) (isStep : isStepKey step = true)
      (key : job.idempotencyKey = some (chainPrefix id ++ step))
      (workflow : ∀ w, job.workflowId = some w → parent.workflowId = some w ∧
        job.stepKey = some (continuationPrefix id ++ step) ∧
        ∃ r, c.workflows.get? w = some r ∧ r.status = .running) :
      Entry c job (some id)

/-- What the functions do to a stored workflow, given its member counts. -/
inductive WorkflowChange (counts : Option MemberCounts) (old : WorkflowRow) : WorkflowRow → Prop
  | touch (at' : Time) : WorkflowChange counts old { old with updatedAt := at' }
  | seal (at' : Time) (actor : Option String) (unsealed : old.sealedAt = none) :
      WorkflowChange counts old
        { old with sealedAt := some at', sealedBy := actor, updatedAt := at' }
  | sealFinished (c : MemberCounts) (at' : Time) (actor : Option String)
      (unsealed : old.sealedAt = none) (counted : counts = some c) (done : c.unfinished = 0) :
      WorkflowChange counts old
        { old with
          sealedAt := some at', sealedBy := actor, status := c.verdict, finishedAt := some at'
          updatedAt := at' }
  | cancel (at' : Time) (actor reason : Option String) (running : old.status = .running)
      (unasked : old.cancelRequestedAt = none) :
      WorkflowChange counts old
        { old with
          sealedAt := old.sealedAt <|> some at', sealedBy := old.sealedBy <|> actor
          cancelRequestedAt := some at', cancelRequestedBy := actor, cancelReason := reason
          updatedAt := at' }
  | finish (c : MemberCounts) (at' : Time) (sealed : old.sealedAt.isSome) (running : old.status = .running)
      (counted : counts = some c) (done : c.unfinished ≤ 0) :
      WorkflowChange counts old
        { old with
          status := if old.cancelRequestedAt.isSome then .cancelled else c.verdict
          finishedAt := some at', updatedAt := at' }

/-- The kinds of transitions. -/
inductive Label where
  | mint
  | change (id : Uuid) (k : Change)
  | dropEdge (child : Uuid)
  | delete (id : Uuid)
  | enter (id : Uuid) (parent : Option Uuid)
  | reserve (w : Uuid)
  | createWorkflow (w : Uuid)
  | changeWorkflow (w : Uuid)
  deriving DecidableEq, Repr

/-- One transition of the job tables. -/
inductive Transition : Label → Core → Core → Prop
  | mint (c : Core) : Transition .mint c { c with nextUuid := c.nextUuid + 1 }
  | start {c : Core} {id attempt : Uuid} {old job : Job} {m : Table Uuid MemberCounts} {a : Attempt}
      (row : RowWrite c id old job m) (step : Life.Step old.maxAttempts .start old.life job.life)
      (current : job.currentAttemptId = some attempt) (opened : a.entry = (id, .running))
      (fresh : ledgerEntry c.attempts attempt = none) (latest : attempt + 1 = c.nextUuid)
      (alone : ∀ b, ledgerEntry c.attempts b ≠ some (id, .running))
      (going : workflowCancelled c old.toJobRow = false) :
      Transition (.change id .start) c
        { c with
          jobs := c.jobs.put id job, memberCounts := m, attempts := c.attempts.put attempt a }
  | change {c : Core} {id : Uuid} {old job : Job} {m : Table Uuid MemberCounts} {k : Change}
      {t : Table Uuid Attempt} (plain : k ≠ .start ∧ k ≠ .promote) (row : RowWrite c id old job m)
      (step : Life.Step old.maxAttempts k old.life job.life)
      (ledger : LedgerMoves k old.toJobRow c.attempts t) :
      Transition (.change id k) c
        { c with
          jobs := c.jobs.put id job, memberCounts := m, attempts := t
          deps := if k.unlinks then c.deps.filter fun e => e.1 ≠ id else c.deps }
  | promote {c : Core} {child parent : Uuid} {old job : Job} {m : Table Uuid MemberCounts}
      (edge : (child, parent) ∈ c.deps) (row : RowWrite c child old job m)
      (step : Life.Step old.maxAttempts .promote old.life job.life) :
      Transition (.change child .promote) c
        { c with
          jobs := c.jobs.put child job, memberCounts := m, deps := c.deps.erase (child, parent) }
  | dropEdge {c : Core} {child parent : Uuid} (edge : (child, parent) ∈ c.deps)
      (released : ∀ job, c.jobs.get? child = some job → job.status ≠ .blocked) :
      Transition (.dropEdge child) c { c with deps := c.deps.erase (child, parent) }
  | delete {c : Core} {id : Uuid} {old : Job} {m : Table Uuid MemberCounts}
      (stored : c.jobs.get? id = some old) (terminal : old.status.terminal = true)
      (free : ∀ e ∈ c.deps, e.1 ≠ id → e.2 ≠ id)
      (counted : deleteWorkflowMemberCounts c.workflows old.toJobRow c.memberCounts = .ok m) :
      Transition (.delete id) c
        { c with
          jobs := c.jobs.remove id, memberCounts := m
          attempts := c.attempts.keep fun _ a => a.jobId ≠ id
          deps := c.deps.filter fun e => e.1 ≠ id }
  | enter {c : Core} {id : Uuid} {job : Job} {parent : Option Uuid} {parents : List Uuid}
      {m : Table Uuid MemberCounts} (fresh : c.jobs.get? id = none) (minted : id < c.nextUuid)
      (range : job.InRange)
      (born : job.life = .fresh (if parents = [] then .queued else .blocked) parents.length)
      (entry : Entry c job.toJobRow parent) (alone : idemClash c id job.toJobRow = false)
      (step : stepTaken c job.toJobRow = false) (distinct : parents.Nodup)
      (waits : ∀ p ∈ parents, ∃ r, c.jobs.get? p = some r ∧ r.status.terminal = false)
      (counted : insertWorkflowMemberCounts job.toJobRow c.memberCounts = .ok m) :
      Transition (.enter id parent) c
        { c with
          jobs := c.jobs.put id job, memberCounts := m
          deps := c.deps ∪ (parents.map fun p => (id, p)).toFinset }
  | reserve {c : Core} {w : Uuid} {r : Workflow} {counts : MemberCounts} {n limit total : ℤ}
      (stored : c.workflows.get? w = some r) (limited : r.memberLimit = some limit)
      (counted : c.memberCounts.get? w = some counts) (admitted : counts.admittedTotal = some total)
      (places : 1 ≤ n) (room : total + n ≤ limit) :
      Transition (.reserve w) c
        { c with memberCounts :=
            c.memberCounts.put w { counts with admittedTotal := some (total + n) } }
  | createWorkflow {c : Core} {w : Uuid} {r : Workflow} (fresh : c.workflows.get? w = none)
      (minted : w < c.nextUuid) (running : r.status = .running) (unsealed : r.sealedAt = none)
      (unasked : r.cancelRequestedAt = none) (limited : r.memberLimit.isSome) :
      Transition (.createWorkflow w) c
        { c with
          workflows := c.workflows.put w r
          memberCounts := c.memberCounts.put w ⟨0, 0, 0, 0, 0, 0, some 0⟩ }
  | changeWorkflow {c : Core} {w : Uuid} {old r : Workflow} (stored : c.workflows.get? w = some old)
      (changed : WorkflowChange (c.memberCounts.get? w) old.toWorkflowRow r.toWorkflowRow) :
      Transition (.changeWorkflow w) c { c with workflows := c.workflows.put w r }

/-- Any number of transitions whose labels are in a set. -/
abbrev Steps (S : Set Label) : Core → Core → Prop := Labelled Transition S

end Taskq
