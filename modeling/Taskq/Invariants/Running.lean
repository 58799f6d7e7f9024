import Taskq.Claiming.Calls
import Taskq.Invariants.Footprints

/-! Only a claim starts jobs: no other call makes more of them run. -/
namespace Taskq
open Relational

/-- The running jobs that a predicate selects. -/
def runningOf (p : JobRow → Bool) (core : Core) : ℕ :=
  core.jobs.count fun _ j => j.status = .running && p j.toJobRow

variable {S : Set Label} {c d : Core} {p : JobRow → Bool} {k : Change} {env : Env} {command : Command}
  {db db' : Db}

/-- The predicate looks at nothing that ever changes. -/
def Fixed (p : JobRow → Bool) : Prop := ∀ a b : JobRow, a.identity = b.identity → p a = p b

theorem Life.Step.stays {max : ℤ} {l l' : Life} (step : Life.Step max k l l') (other : k ≠ .start)
    (running : l'.status = .running) : l.status = .running := by
  cases step with
  | start => exact absurd rfl other
  | beat l here | requestCancel l here => exact here
  | adjust | link => exact running
  | promote =>
    simp only at running
    split_ifs at running
  | _ => cases running

theorem Steps.runningOf_le (steps : Steps S c d) (quiet : ∀ id, .change id .start ∉ S) (fixed : Fixed p) :
    runningOf p d ≤ runningOf p c := by
  refine Table.count_mono fun id => ?_
  refine steps.row (R := fun r s => (∃ j, s = some j ∧ (j.status = .running && p j.toJobRow) = true) →
    ∃ j, r = some j ∧ (j.status = .running && p j.toJobRow) = true) id (fun _ h => h)
    (fun first second h => first (second h)) fun {l r s} member move => ?_
  rintro ⟨job, rfl, here⟩
  simp only [Bool.and_eq_true, decide_eq_true_eq] at here
  obtain ⟨running, chosen⟩ := here
  cases move with
  | same => exact ⟨job, rfl, by simp [running, chosen]⟩
  | @change k old _ label range kept step =>
    have other : k ≠ .start := by
      rintro rfl
      exact quiet id (label ▸ member)
    have before : old.status = .running := step.stays other running
    exact ⟨old, rfl, by simp [before, ← fixed _ _ kept, chosen]⟩
  | @enter _ _ parents label range born =>
    have queued : job.status = if parents = [] then .queued else .blocked := congrArg Life.status born
    rw [running] at queued
    split_ifs at queued

/-- Only claims have starts among their transitions. -/
theorem Command.footprints_start {F : Set Label} {id : Uuid} (used : F ∈ command.footprints env db)
    (member : .change id .start ∈ F) : command.claim ≠ none := by
  cases command with
  | claimJobs | claimJobsWithPolicies => simp [Command.claim]
  | _ =>
    cases used
    simp [idleLabels, admissions, receipts, changesOf, completions, promotions, followups,
      dependents, cancelling, creations, abandons, withdrawals, finalizations, deletions, firings,
      sweeps, revocations, reclaims, expiries, ticks, failing, expiring, redrives] at member

theorem Command.runningOf_le (run : command.exec env db = .ok db') (other : command.claim = none)
    (fixed : Fixed p) : runningOf p db'.toCore ≤ runningOf p db.toCore := by
  obtain ⟨F, used, steps⟩ := Command.exec_steps run
  exact steps.runningOf_le (fun id member => Command.footprints_start used member other) fixed

theorem reapExpired_runningOf_le {limit : Option ℤ} {n : ℤ} (run : reapExpired env limit db = .ok (n, db'))
    (fixed : Fixed p) : runningOf p db'.toCore ≤ runningOf p db.toCore :=
  (reapExpired_path run).steps.runningOf_le
    (fun id member => by simp [reclaims, expiries, dependents] at member) fixed

end Taskq
