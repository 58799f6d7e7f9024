import Taskq.Invariants.Identifiers

/-! Which changes of a job each call can make. -/
namespace Taskq
open Relational

variable {env : Env} {db : Db} {command : Command} {F : Set Label} {id : Uuid} {k : Change}

/-- The retry flag of a failure that a worker reports for the job. -/
def Command.reportsFailure (id : Uuid) : Command → Option (Option Bool)
  | .failJob jobId _ _ _ retryable .. => if jobId = id then some retryable else none
  | _ => none

/-- The call may expire the lease of the job with this row: the lease has run out when a reaper comes,
or an operator backdates it. -/
def Command.expires (env : Env) (id : Uuid) (row : JobRow) : Command → Prop
  | .reapExpired _ | .tick _ | .claimJobs _ | .claimJobsWithPolicies .. => leaseExpired env row = true
  | .expireJob jobId _ => jobId = id
  | .expireWorkerLeases worker => worker.isSome ∧ row.workerId = worker
  | _ => False

/-- The call may expire the lease of the job as it is stored. -/
def Command.mayExpire (env : Env) (db : Db) (id : Uuid) (command : Command) : Prop :=
  ∀ job, db.jobs.get? id = some job → command.expires env id job.toJobRow

/-- The call may redrive the job. -/
def Command.mayRedrive (id : Uuid) : Command → Prop
  | .redriveJob jobId .. => jobId = id
  | .redriveFailed .. => True
  | _ => False

/-- The call may link a job to an admission. -/
def Command.finishes : Command → Prop
  | .finishAdmission .. => True
  | _ => False

/-- Which calls make the changes that concern attempts, failures and admissions. -/
def Command.allows (env : Env) (db : Db) (id : Uuid) (command : Command) : Change → Prop
  | .retry => (command.reportsFailure id).isSome = true
  | .bury retryable => command.reportsFailure id = some retryable
  | .expireRetry | .expireBury | .expireCancel => command.mayExpire env db id
  | .redrive => command.mayRedrive id
  | .link _ => command.finishes
  | _ => True

/-- A change that starts nothing, redrives nothing, counts no failure and links no admission. -/
def Change.plain : Change → Bool
  | .start | .retry | .bury _ | .expireRetry | .expireBury | .expireCancel | .redrive | .link _ => false
  | _ => true

theorem Command.allows_of_plain (plain : k.plain = true) : command.allows env db id k := by
  cases k <;> simp_all [Change.plain, Command.allows]

theorem Change.plain_ne (plain : k.plain = true) : k ≠ .start ∧ k ≠ .redrive := by
  constructor <;> rintro rfl <;> cases plain

/-- A reclaim of leases that the call may expire starts nothing and redrives nothing. -/
theorem Command.allows_expiring {late : Set Uuid} (member : .change id k ∈ expiries late)
    (expired : id ∈ late → command.mayExpire env db id) :
    command.allows env db id k ∧ (k = .start → F = starts) ∧
      (k = .redrive → ∀ k', .change id k' ∈ F → k' = .redrive ∨ k' = .adjust) := by
  obtain ⟨_, inside, only | only | only⟩ := member <;> cases only <;>
    exact ⟨expired inside, by simp, by simp⟩

theorem mayExpire_of_lapsed (reaps : ∀ row, leaseExpired env row = true → command.expires env id row)
    (inside : id ∈ lapsed env db.toCore) : command.mayExpire env db id := by
  obtain ⟨job, stored, late⟩ := inside
  intro other here
  cases stored.symm.trans here
  exact reaps _ late

theorem mayExpire_of_held {worker : Option String} (inside : id ∈ heldBy worker db.toCore) :
    (Command.expireWorkerLeases worker).mayExpire env db id := by
  obtain ⟨job, stored, -, named, held⟩ := inside
  intro other here
  cases stored.symm.trans here
  exact ⟨named, held⟩

/-- The changes of a job in a footprint are plain or those that the call allows, and starts and redrives
come in footprints of their own. -/
theorem Command.footprints_change (used : F ∈ command.footprints env db)
    (member : .change id k ∈ F) : k.plain = true ∨ command.allows env db id k ∧ (k = .start → F = starts) ∧
      (k = .redrive → ∀ k', .change id k' ∈ F → k' = .redrive ∨ k' = .adjust) := by
  cases command with
  | claimJobs | claimJobsWithPolicies =>
    obtain rfl | rfl := used
    · have only : k = .start := by simpa [starts] using member
      simp [only, Command.allows]
    · obtain reclaimed | ⟨_, only⟩ := member
      · exact .inr (Command.allows_expiring reclaimed (mayExpire_of_lapsed fun _ late => late))
      · cases only
        exact .inl rfl
  | redriveJob jobId =>
    cases used
    have only : k = .redrive ∧ id = jobId := by simpa [changesOf, and_comm] using member
    simp [only, Command.allows, Command.mayRedrive, changesOf]
  | redriveFailed =>
    cases used
    obtain ⟨_, only | only⟩ := member <;> cases only
    · refine .inr ⟨trivial, by simp, fun _ k' other => ?_⟩
      obtain ⟨_, only | only⟩ := other <;> cases only <;> simp
    · exact .inl rfl
  | failJob jobId _ _ _ retryable =>
    cases used
    have only : (id = jobId ∧ (k = .retry ∨ k = .bury retryable)) ∨ k.plain = true := by
      simp [failing, changesOf, dependents] at member
      grind [Change.plain]
    obtain ⟨rfl, rfl | rfl⟩ | plain := only
    · simp [Command.allows, Command.reportsFailure]
    · simp [Command.allows, Command.reportsFailure]
    · exact .inl plain
  | expireJob jobId =>
    cases used
    have only : (id = jobId ∧ k ∈ expiring) ∨ k.plain = true := by
      simp [changesOf, dependents] at member
      grind [Change.plain]
    obtain ⟨rfl, only⟩ | plain := only
    · simp only [expiring, List.mem_cons, List.not_mem_nil, or_false] at only
      obtain rfl | rfl | rfl := only <;> simp [Command.allows, Command.mayExpire, Command.expires]
    · exact .inl plain
  | finishAdmission =>
    cases used
    obtain ⟨_, rfl⟩ : ∃ admission, k = .link admission := by simpa [receipts, admissions] using member
    simp [Command.allows, Command.finishes]
  | expireWorkerLeases worker =>
    cases used
    obtain ⟨_, only⟩ | reclaimed | ⟨_, only⟩ := member
    · cases only
      exact .inl rfl
    · exact .inr (Command.allows_expiring reclaimed mayExpire_of_held)
    · cases only
      exact .inl rfl
  | reapExpired | tick =>
    cases used
    have only : .change id k ∈ expiries (lapsed env db.toCore) ∨ k.plain = true := by
      simp [reclaims, dependents, ticks, sweeps, withdrawals, cancelling, promotions,
        finalizations] at member
      grind [Change.plain]
    obtain reclaimed | plain := only
    · exact .inr (Command.allows_expiring reclaimed (mayExpire_of_lapsed fun _ late => late))
    · exact .inl plain
  | _ =>
    cases used
    left
    simp [idleLabels, admissions, changesOf, completions, promotions, followups,
      dependents, cancelling, creations, abandons, withdrawals, finalizations, deletions, firings,
      sweeps] at member <;> grind [Change.plain]

/-- Only a finish links a job to an admission. -/
theorem Command.footprints_unlinked (used : F ∈ command.footprints env db) (other : ¬command.finishes) :
    F ⊆ unlinked := by
  rintro l member id admission rfl
  obtain plain | ⟨allowed, -⟩ := Command.footprints_change used member
  · cases plain
  · exact other allowed

end Taskq
