import Taskq.Lifecycle.Commands

/-! From transitions to runs of the installation, and the first thing that runs keep: identifiers are
never handed out twice. -/
namespace Taskq
open Relational

section Runs

variable {site : Site} {allowed : System → Env → Command → Prop} {s t : System} {env : Env}
  {command : Command}

theorem System.Step.exec (step : System.Step site env command s t) :
    command.exec env s.db = .ok t.db := by
  cases step with
  | commit _ _ run => exact run

theorem System.Step.steps (step : System.Step site env command s t) :
    ∃ F ∈ command.footprints env s.db, Steps F s.db.toCore t.db.toCore :=
  Command.exec_steps step.exec

/-- What an installation satisfies and every transition keeps holds in every reachable state. -/
theorem System.Reachable.core {I : Core → Prop} (reachable : System.Reachable site allowed s)
    (installed : ∀ now, I (Db.installed site now).toCore)
    (step : ∀ {l c d}, I c → Transition l c d → I d) : I s.db.toCore := by
  refine reachable.induction (I := fun s => I s.db.toCore) installed fun ih _ next => ?_
  obtain ⟨F, -, steps⟩ := next.steps
  exact steps.invariant (fun _ h holds => step holds h) ih

/-- A reflexive and transitive relation that every call respects relates the ends of a run. -/
theorem System.Run.relates {R : System → System → Prop} (run : System.Run site allowed s t)
    (refl : ∀ s, R s s) (trans : ∀ {s t u}, R s t → R t u → R s u)
    (step : ∀ {t u : System} {env : Env} {command : Command}, allowed t env command →
      System.Step site env command t u → R t u) : R s t :=
  run.induction (I := R s) (refl s) fun ih permitted next => trans ih (step permitted next)

end Runs

section Minted

/-- Every stored job, attempt and workflow has an id that was handed out. -/
structure Minted (c : Core) : Prop where
  jobs : ∀ id, c.jobs.get? id ≠ none → id < c.nextUuid
  workflows : ∀ w, c.workflows.get? w ≠ none → w < c.nextUuid

theorem Minted.put {ρ : Type} {t : Table Uuid ρ} {id n : Uuid} {r : ρ}
    (old : ∀ id, t.get? id ≠ none → id < n) (new : id < n) :
    ∀ id', (t.put id r).get? id' ≠ none → id' < n := by
  intro id' here
  rw [Table.get?_put] at here
  split_ifs at here with same
  · exact same ▸ new
  · exact old id' here

theorem Minted.step {l : Label} {c d : Core} (minted : Minted c) (h : Transition l c d) : Minted d := by
  have stored {id : Uuid} {job : Job} (h : c.jobs.get? id = some job) : id < c.nextUuid :=
    minted.jobs id (by simp [h])
  cases h with
  | mint =>
    exact ⟨fun id here => Nat.lt_succ_of_lt (minted.jobs id here),
      fun w here => Nat.lt_succ_of_lt (minted.workflows w here)⟩
  | start row => exact ⟨Minted.put minted.jobs (stored row.stored), minted.workflows⟩
  | change _ row => exact ⟨Minted.put minted.jobs (stored row.stored), minted.workflows⟩
  | promote _ row => exact ⟨Minted.put minted.jobs (stored row.stored), minted.workflows⟩
  | enter _ new => exact ⟨Minted.put minted.jobs new, minted.workflows⟩
  | delete =>
    refine ⟨fun id here => minted.jobs id ?_, minted.workflows⟩
    rw [Table.get?_remove] at here
    split_ifs at here
    · exact absurd rfl here
    · exact here
  | createWorkflow _ new => exact ⟨minted.jobs, Minted.put minted.workflows new⟩
  | changeWorkflow there =>
    exact ⟨minted.jobs, Minted.put minted.workflows (minted.workflows _ (by simp [there]))⟩
  | dropEdge | reserve => exact ⟨minted.jobs, minted.workflows⟩

theorem System.Reachable.minted {site : Site} {allowed : System → Env → Command → Prop} {s : System}
    (reachable : System.Reachable site allowed s) : Minted s.db.toCore :=
  reachable.core (fun _ => ⟨fun _ here => absurd rfl here, fun _ here => absurd rfl here⟩)
    fun minted h => minted.step h

end Minted

section Admission

variable {env : Env} {db : Db} {command : Command}

/-- A call admits jobs under ids that it draws itself. -/
theorem Command.footprints_enter {F : Set Label} (used : F ∈ command.footprints env db) {id : Uuid}
    {parent : Option Uuid} (member : .enter id parent ∈ F) : db.nextUuid ≤ id := by
  have admitted (member : Label.enter id parent ∈ admissions db.nextUuid) : db.nextUuid ≤ id := by
    have own : db.nextUuid ≤ id ∧ parent = none := by simpa [admissions] using member
    exact own.1
  cases command with
  | enqueue | tryEnqueue | enqueueMany =>
    cases used
    exact admitted member
  | finishAdmission =>
    cases used
    exact admitted (by simpa [receipts] using member)
  | fireSchedule =>
    cases used
    exact admitted (by simpa [firings, deletions] using member)
  | completeJob jobId | completeJobWithPolicy jobId =>
    cases used
    have own : db.nextUuid ≤ id ∧ parent = some jobId := by
      simpa [completions, changesOf, promotions, followups] using member
    exact own.1
  | claimJobs | claimJobsWithPolicies =>
    obtain rfl | rfl := used <;>
      simp [starts, reclaims, expiries, dependents] at member
  | _ =>
    cases used
    simp [idleLabels, changesOf, dependents, sweeps, revocations, reclaims, expiries, redrives,
      promotions, creations, abandons, withdrawals, finalizations, ticks, deletions] at member

end Admission

end Taskq
