import Taskq.Invariants.Counters
import Taskq.Invariants.Ledger

/-! The invariants of the job tables together, and what they are for: a row that is rewritten within
its checks and ranges meets no constraint. -/
namespace Taskq
open Relational

/-- What every reachable state of the job tables satisfies. -/
structure Sound (c : Core) : Prop where
  ledger : LedgerOk c
  minted : Minted c
  members : MembersTrue c
  range : ∀ id job, c.jobs.get? id = some job → job.InRange
  counts : ∀ w counts, c.memberCounts.get? w = some counts → counts.checksOk = true

namespace Sound

variable {c d : Core} {l : Label} {id : Uuid} {old job : Job} {m : Table Uuid MemberCounts} {S : Set Label}

theorem put_counts {w : Uuid} {new : MemberCounts} {t : Table Uuid MemberCounts}
    (ok : ∀ w counts, t.get? w = some counts → counts.checksOk = true) (run : putCounts w new t = .ok m) :
    ∀ w counts, m.get? w = some counts → counts.checksOk = true := by
  obtain ⟨⟨⟩, good, done⟩ := seq_eq_ok.mp run
  cases done
  intro v counts here
  rw [Table.get?_put] at here
  split_ifs at here
  · cases here
    exact ensure_eq_ok.mp good
  · exact ok v counts here

theorem leave_counts {workflows : Table Uuid Workflow} {w : Uuid} {status : JobStatus}
    {t : Table Uuid MemberCounts} (ok : ∀ w counts, t.get? w = some counts → counts.checksOk = true)
    (run : countLeave workflows w status t = .ok m) :
    ∀ w counts, m.get? w = some counts → counts.checksOk = true := by
  unfold countLeave at run
  split at run
  · exact put_counts ok run
  · obtain ⟨-, -, done⟩ := seq_eq_ok.mp run
    cases done
    exact ok

theorem enter_counts {w : Uuid} {status : JobStatus} {t : Table Uuid MemberCounts}
    (ok : ∀ w counts, t.get? w = some counts → counts.checksOk = true)
    (run : countEnter w status t = .ok m) :
    ∀ w counts, m.get? w = some counts → counts.checksOk = true := by
  unfold countEnter at run
  split at run
  · exact put_counts ok run
  · cases run

theorem write_counts {workflows : Table Uuid Workflow} {r r' : JobRow} {t : Table Uuid MemberCounts}
    (ok : ∀ w counts, t.get? w = some counts → counts.checksOk = true)
    (run : updateWorkflowMemberCounts workflows r r' t = .ok m) :
    ∀ w counts, m.get? w = some counts → counts.checksOk = true := by
  unfold updateWorkflowMemberCounts at run
  split at run
  · cases run
    exact ok
  · split at run
    · cases run
      exact ok
    · obtain ⟨left, leave, enter⟩ := seq_eq_ok.mp run
      exact enter_counts (leave_counts ok leave) enter

theorem step_counts (ok : Sound c) (h : Transition l c d) :
    ∀ w counts, d.memberCounts.get? w = some counts → counts.checksOk = true := by
  cases h with
  | start row => exact write_counts ok.counts row.counted
  | change _ row => exact write_counts ok.counts row.counted
  | promote _ row => exact write_counts ok.counts row.counted
  | enter _ _ _ _ _ _ _ _ _ counted =>
    unfold insertWorkflowMemberCounts at counted
    split at counted
    · cases counted
      exact ok.counts
    · exact enter_counts ok.counts counted
  | delete _ _ _ counted =>
    unfold deleteWorkflowMemberCounts at counted
    split at counted
    · cases counted
      exact ok.counts
    · exact leave_counts ok.counts counted
  | @reserve _ w r counts n limit total _ _ counted admitted places =>
    have before := ok.counts w counts counted
    intro v other here
    simp only [Table.get?_put] at here
    split_ifs at here
    · cases here
      simp only [MemberCounts.checksOk, admitted, Option.all_some, Bool.and_eq_true,
        decide_eq_true_eq] at before ⊢
      omega
    · exact ok.counts v other here
  | createWorkflow =>
    intro v other here
    simp only [Table.get?_put] at here
    split_ifs at here
    · cases here
      rfl
    · exact ok.counts v other here
  | mint | dropEdge | changeWorkflow => exact ok.counts

theorem step (ok : Sound c) (h : Transition l c d) : Sound d := by
  refine ⟨ok.ledger.step h, ok.minted.step h, ok.members.step h, fun id job here => ?_, ok.step_counts h⟩
  have move := h.row id
  rw [here] at move
  generalize before : c.jobs.get? id = was at move
  cases move with
  | same => exact ok.range id job before
  | change _ range => exact range
  | enter _ range => exact range

theorem steps (ok : Sound c) (steps : Steps S c d) : Sound d :=
  steps.invariant (fun _ h ok => ok.step h) ok

theorem installed (site : Site) (now : Time) : Sound (Db.installed site now).toCore where
  ledger := ⟨by simp [Db.installed, ledgerEntry], by simp [Db.installed], by simp [Db.installed],
    by simp [Db.installed]⟩
  minted := ⟨fun _ here => absurd rfl here, fun _ here => absurd rfl here⟩
  members := ⟨fun _ _ _ here => (by cases here), fun _ => ⟨fun _ => rfl, fun _ => rfl⟩,
    fun _ _ here => by cases here⟩
  range _ _ here := by cases here
  counts _ _ here := by cases here

end Sound

theorem System.Reachable.sound {site : Site} {allowed : System → Env → Command → Prop} {s : System}
    (reachable : System.Reachable site allowed s) : Sound s.db.toCore :=
  reachable.core (Sound.installed site) fun ok h => ok.step h

section Writes

variable {c : Core} {env : Env} {id : Uuid} {old : Job} {new : JobRow} {db : Db}

theorem checksOk_of (counts : MemberCounts) (admitted : counts.admittedTotal.all (0 ≤ ·) = true)
    (positive : ∀ status, 0 ≤ counts.of status) : counts.checksOk = true := by
  simp only [MemberCounts.checksOk, Bool.and_eq_true, decide_eq_true_eq]
  exact ⟨⟨⟨⟨⟨⟨positive .blocked, positive .queued⟩, positive .running⟩, positive .succeeded⟩,
    positive .failed⟩, positive .cancelled⟩, admitted⟩

/-- A stored member that changes its status finds the counts of its workflow. -/
theorem Sound.counts_move (ok : Sound c) (stored : c.jobs.get? id = some old) (new : JobRow) :
    ∃ m, updateWorkflowMemberCounts c.workflows old.toJobRow new c.memberCounts = .ok m := by
  unfold updateWorkflowMemberCounts
  cases member : old.workflowId with
  | none => exact ⟨_, rfl⟩
  | some w =>
    dsimp only
    split_ifs
    · exact ⟨_, rfl⟩
    · obtain ⟨counts, there⟩ := Option.ne_none_iff_exists'.mp
        (mt (ok.members.paired w).mp (ok.members.known id old w stored member))
      have admitted : counts.admittedTotal.all (0 ≤ ·) = true := by
        have all := ok.counts w counts there
        simp only [MemberCounts.checksOk, Bool.and_eq_true] at all
        exact all.2
      have present : 0 < membersIn c.jobs w old.status := by
        refine Nat.pos_of_ne_zero fun none' => ?_
        have absent := Table.count_eq_zero.mp none' id old stored
        simp [member] at absent
      have leaves (status : JobStatus) : 0 ≤ (counts.minus old.status).of status := by
        rw [MemberCounts.minus_of, ok.members.counted w counts there status]
        by_cases same : old.status = status
        · subst same
          simp only [one, decide_true, if_true]
          omega
        · simp [one, same]
      have enters (status : JobStatus) : 0 ≤ ((counts.minus old.status).plus new.status).of status := by
        rw [MemberCounts.plus_of]
        have := leaves status
        unfold one
        split_ifs <;> omega
      simp [countLeave, countEnter, there, putCounts, checksOk_of (counts.minus old.status) admitted leaves,
        checksOk_of ((counts.minus old.status).plus new.status) admitted enters, ensure, bind, Except.bind]

/-- A live row that is rewritten within its checks and ranges is stored, when the breaker takes it. -/
theorem Sound.writes (env : Env) (ok : Sound db.toCore) (stored : db.jobs.get? id = some old)
    (live : old.status.terminal = false) (range : new.InRange) (checks : new.checksOk = true)
    (breaker : ∀ job : Job, job.toJobRow = new → (new.status = .failed ∨ new.status = .succeeded) →
      ∃ d, breakerOnSettle env id new (db.putJob id job) = .ok d) :
    ∃ db', writeJob env id old new db = .ok db' := by
  have store : storeJob new = .ok ⟨new, checks⟩ := storeJob_eq_ok.mpr ⟨range, rfl⟩
  have active : old.status.active = true := by simp [JobStatus.active, live]
  obtain ⟨m, counted⟩ := ok.counts_move stored new
  have guard : admissionOwnerGuardUpdate old.toJobRow new db = .ok () := by
    simp [admissionOwnerGuardUpdate, live]
  obtain ⟨d, taken, kept⟩ : ∃ d, (if decide ((new.status = .failed ∨ new.status = .succeeded) ∧
      new.status ≠ old.status) = true then breakerOnSettle env id new (db.putJob id ⟨new, checks⟩)
      else .ok (db.putJob id ⟨new, checks⟩)) = .ok d ∧ d.workflows = db.workflows ∧
        d.memberCounts = db.memberCounts := by
    split_ifs with settled
    · obtain ⟨d, taken⟩ := breaker ⟨new, checks⟩ rfl (of_decide_eq_true settled).1
      obtain ⟨flows, events, rfl⟩ := breakerOnSettle_frame taken
      exact ⟨_, taken, rfl, rfl⟩
    · exact ⟨_, rfl, rfl, rfl⟩
  obtain ⟨counters, frame⟩ := countUpdated_frame env old.toJobRow new d
  simp only [writeJob, seq_eq_ok, ensure_eq_ok]
  refine ⟨_, (), guard, _, store, (), .inl active, d, taken, m, ?_, rfl⟩
  rw [frame, kept.1, kept.2]
  exact counted

end Writes

end Taskq
