import Taskq.Lifecycle.HousekeepingPaths
import Taskq.Model.Claim

/-! The paths of a claim: it starts attempts, or, when it finds no job, it reclaims a few expired
leases; never both. -/
namespace Taskq
open Relational

variable {env : Env} {S : Set Label} {args : ClaimArgs} {db db' : Db}

/-- What a claim leaves behind after the gate of its breaker: a path on which the buckets may meter. -/
structure Metered (env : Env) (S : Set Label) (db db' : Db) : Prop where
  steps : Steps S db.toCore db'.toCore
  settings : db'.settings = db.settings
  logs : ∃ log, Sequence (ClaimStatement env) log db db'

namespace Metered

theorem of_path (path : Path env S db db') : Metered env S db db' :=
  ⟨path.steps, path.settings, path.logs.imp fun _ statements => statements.mono .job⟩

theorem refl (db : Db) : Metered env S db db := .of_path (.refl db)

theorem trans {mid : Db} (first : Metered env S db mid) (second : Metered env S mid db') :
    Metered env S db db' := by
  obtain ⟨log, before⟩ := first.logs
  obtain ⟨log', after⟩ := second.logs
  exact ⟨first.steps.trans second.steps, second.settings.trans first.settings, _, before.trans after⟩

end Metered

/-- Statements that write neither the job tables nor the settings. -/
structure Aside (env : Env) (db db' : Db) : Prop where
  core : db'.toCore = db.toCore
  settings : db'.settings = db.settings
  logs : ∃ log, Sequence (ClaimStatement env) log db db'

namespace Aside

theorem refl (db : Db) : Aside env db db := ⟨rfl, rfl, [], .nil db⟩

theorem trans {mid : Db} (first : Aside env db mid) (second : Aside env mid db') : Aside env db db' := by
  obtain ⟨log, before⟩ := first.logs
  obtain ⟨log', after⟩ := second.logs
  exact ⟨second.core.trans first.core, second.settings.trans first.settings, _, before.trans after⟩

theorem metered (aside : Aside env db db') : Metered env S db db' :=
  ⟨aside.core ▸ .refl _, aside.settings, aside.logs⟩

end Aside

section Gates

theorem breakerGate_frame {queue : String} {wait : Option ℤ}
    (run : breakerGate env queue db = .ok (wait, db')) :
    ∃ flows, db' = { db with queueFlow := flows } := by
  unfold breakerGate at run
  split at run
  · cases run
    exact ⟨_, rfl⟩
  · split at run
    · cases run
      exact ⟨_, rfl⟩
    · simp only at run
      split at run
      · split at run
        · obtain ⟨_, -, finish⟩ := seq_eq_ok.mp run
          cases finish
          exact ⟨_, rfl⟩
        · cases run
          exact ⟨_, rfl⟩
      · split at run <;> cases run <;> exact ⟨_, rfl⟩
      · cases run
        exact ⟨_, rfl⟩

theorem flowConsumeQueue_frame {queue : String} {rate burst want : ℤ} {scale : ℚ} {grant : Grant}
    (run : flowConsumeQueue env queue rate burst scale want db = .ok (grant, db')) :
    ∃ flows, db' = { db with queueFlow := flows } := by
  simp only [flowConsumeQueue, seq_eq_ok] at run
  obtain ⟨available, -, run⟩ := run
  split at run
  · obtain ⟨_, -, finish⟩ := seq_eq_ok.mp run
    cases finish
    exact ⟨_, rfl⟩
  · cases run
    exact ⟨_, rfl⟩

theorem flowConsumeQueue_aside {queue : String} {q : Queue} {rate want : ℤ} {grant : Grant}
    (stored : db.queues.get? queue = some q) (rated : q.claimRatePerMinute = some rate)
    (run : flowConsumeQueue env queue rate (q.claimBurst.getD rate)
      (flowScale env db queue q.rampSeconds) want db = .ok (grant, db')) : Aside env db db' := by
  have logs : Sequence (ClaimStatement env) [] db db' := .single (.consume stored rated run)
  obtain ⟨flows, rfl⟩ := flowConsumeQueue_frame run
  exact ⟨rfl, rfl, _, logs⟩

theorem queueGate_aside {q : Queue} {batch : ℤ} {gate : Except ClaimBatch ℤ}
    (stored : db.queues.get? args.queue = some q)
    (run : queueGate env args q batch db = .ok (gate, db')) : Aside env db db' := by
  simp only [queueGate] at run
  split at run
  · cases run
    exact .refl _
  · split at run
    · cases run
      exact .refl _
    · rename_i rate rated
      obtain ⟨⟨grant, consumed⟩, consume, run⟩ := seq_eq_ok.mp run
      split at run <;> cases run <;> exact flowConsumeQueue_aside stored rated consume

theorem flowKeyAdmit_frame (env : Env) (key : String) (db : Db) :
    ∃ keys, (flowKeyAdmit env key db).2 = { db with flowState := keys } := by
  unfold flowKeyAdmit
  split
  · exact ⟨_, rfl⟩
  · split
    · exact ⟨_, rfl⟩
    · simp only
      split <;> exact ⟨_, rfl⟩

theorem flowKeyAdmit_aside (env : Env) (key : String) (db : Db) :
    Aside env db (flowKeyAdmit env key db).2 := by
  have logs : Sequence (ClaimStatement env) [] db _ := .single (.key key db)
  obtain ⟨keys, frame⟩ := flowKeyAdmit_frame env key db
  rw [frame] at logs ⊢
  exact ⟨rfl, rfl, _, logs⟩

theorem admitCandidate_aside (env : Env) (job : JobRow) (db : Db) :
    Aside env db (admitCandidate env job db).2 := by
  simp only [admitCandidate]
  split
  · exact .refl _
  · split
    · exact .refl _
    · exact flowKeyAdmit_aside env _ db

end Gates

section Candidates

/-- A candidate scan returns stored jobs that pass the filter of the claim. -/
def Picks (env : Env) (args : ClaimArgs)
    (pick : Scan → Core → Call (Option (Uuid × Job) × Scan)) : Prop :=
  ∀ {scan scan' core id job}, pick scan core = .ok (some (id, job), scan') →
    core.jobs.get? id = some job ∧ claimable env core args job.toJobRow = true

theorem firstCandidate_mem {aging : Option ℤ} {p : Uuid → JobRow → Bool} {core : Core} {id : Uuid}
    {job : Job} (run : firstCandidate env aging p core = .ok (some (id, job))) :
    core.jobs.get? id = some job ∧ p id job.toJobRow = true := by
  simp only [firstCandidate, seq_eq_ok] at run
  obtain ⟨-, -, found⟩ := run
  have member := List.mem_of_find?_eq_some (Except.ok.inj found)
  rw [List.mem_insertionSort] at member
  exact Table.mem_select.mp member

theorem pickOrdinary_picks {aging : Option ℤ} {saturated : String → Bool} :
    Picks env args (pickOrdinary env args aging saturated) := by
  intro scan scan' core id job run
  simp only [pickOrdinary, seq_eq_ok] at run
  obtain ⟨preferred, prefer, run⟩ := run
  split at run
  · cases run
    split at prefer
    · obtain ⟨stored, chosen⟩ := firstCandidate_mem prefer
      simp only [Bool.and_eq_true] at chosen
      exact ⟨stored, chosen.1.1.1⟩
    · cases prefer
  · obtain ⟨other, pick, finish⟩ := seq_eq_ok.mp run
    cases finish
    obtain ⟨stored, chosen⟩ := firstCandidate_mem pick
    simp only [Bool.and_eq_true] at chosen
    exact ⟨stored, chosen.1.1.1⟩

theorem frontier_mem {policies : List (Option String)} {batch : ℤ} {p : Uuid → JobRow → Bool}
    {core : Core} {id : Uuid} {job : Job}
    (found : frontier env policies batch p core = some (id, job)) :
    core.jobs.get? id = some job ∧ p id job.toJobRow = true := by
  have member := List.mem_of_head? found
  rw [List.mem_insertionSort, List.mem_flatMap] at member
  obtain ⟨hash, -, chosen⟩ := member
  obtain ⟨stored, good⟩ := Table.mem_selectBy.mp (List.mem_of_mem_take chosen)
  simp only [decide_eq_true_eq] at good
  exact ⟨stored, good.1⟩

theorem pickWithPolicies_picks {hashes : List String} {batch : ℤ} {saturated : String → Bool} :
    Picks env args fun scan core =>
      .ok (pickWithPolicies env args hashes batch saturated scan core) := by
  intro scan scan' core id job run
  have run := Except.ok.inj run
  simp only [pickWithPolicies] at run
  split at run
  · simp only [Prod.mk.injEq, Option.bind_eq_some_iff, Option.ite_none_right_eq_some,
      Option.some.injEq] at run
    obtain ⟨⟨j, stored, ⟨good, -⟩, rfl, rfl⟩, -⟩ := run
    exact ⟨stored, good⟩
  · split at run
    · rename_i preferred prefer
      cases run
      split at prefer
      · obtain ⟨stored, good⟩ := frontier_mem prefer
        simp only [Bool.and_eq_true] at good
        exact ⟨stored, good.1.1⟩
      · cases prefer
    · simp only [Prod.mk.injEq] at run
      obtain ⟨stored, good⟩ := frontier_mem run.1
      simp only [Bool.and_eq_true] at good
      exact ⟨stored, good.1⟩

theorem claimable_iff {core : Core} {job : JobRow} (good : claimable env core args job = true) :
    job.status = .queued ∧ job.cancelRequestedAt.isSome = false ∧
      workflowCancelled core job = false := by
  simp only [claimable, Bool.and_eq_true, decide_eq_true_eq, Bool.not_eq_true'] at good
  obtain ⟨⟨⟨⟨⟨⟨-, queued⟩, -⟩, unasked⟩, -⟩, going⟩, -⟩ := good
  refine ⟨queued, ?_, going⟩
  simpa using unasked

end Candidates

section Starts

/-- The labels of the claim loop. -/
def starts : Set Label := {l | l = .mint ∨ ∃ id, l = .change id .start}

theorem startAttempt_logs {id : Uuid} {job : Job} {claimed : ClaimedJob}
    (run : startAttempt env args id job db = .ok (claimed, db')) (stored : db.jobs.get? id = some job) :
    Logs env db db' := by
  simp only [startAttempt, newUuid, seq_eq_ok] at run
  obtain ⟨written, write, opened, insert, last, event, finish⟩ := run
  cases finish
  rw [emitEvent_quiet (by decide) (by decide)] at event
  cases event
  simp only [insertAttempt, seq_eq_ok, ensure_eq_ok] at insert
  obtain ⟨-, -, -, -, done⟩ := insert
  cases done
  have minted : Logs env db { db with nextUuid := db.nextUuid + 1 } := .aside rfl rfl
  exact (minted.trans (.single (.update stored (by rfl) write))).trans (.aside rfl rfl)

theorem startAttempt_path {id : Uuid} {job : Job} {claimed : ClaimedJob}
    (run : startAttempt env args id job db = .ok (claimed, db'))
    (stored : db.jobs.get? id = some job) (good : claimable env db.toCore args job.toJobRow = true) :
    Path env starts db db' := by
  have logs := startAttempt_logs run stored
  obtain ⟨queued, unasked, going⟩ := claimable_iff good
  simp only [startAttempt, newUuid, seq_eq_ok] at run
  obtain ⟨written, write, opened, insert, last, event, finish⟩ := run
  cases finish
  rw [emitEvent_quiet (by decide) (by decide)] at event
  cases event
  simp only [insertAttempt, seq_eq_ok, ensure_eq_ok] at insert
  obtain ⟨-, fresh, -, alone, done⟩ := insert
  cases done
  obtain ⟨row, counts, counters, flows, events, same, range, counted, rfl⟩ := writeJob_frame write
  have minted : Path env starts db { db with nextUuid := db.nextUuid + 1 } := .mint (.inl rfl)
  refine ⟨minted.steps.trans (.single (l := .change id .start) ?_ (.inr ⟨id, rfl⟩)), rfl, logs⟩
  have kept : row.identity = job.identity := same ▸ rfl
  have written : RowWrite { db with nextUuid := db.nextUuid + 1 }.toCore id job row counts :=
    ⟨stored, same ▸ range, kept, same ▸ counted⟩
  refine .start written ?_ ?_ rfl ?_ rfl ?_ going
  · rw [same]
    exact .start job.life db.nextUuid queued unasked
  · rw [same]
  · simpa [ledgerEntry] using fresh
  · intro b held
    simp only [ledgerEntry, Option.map_eq_some_iff, Attempt.entry, Prod.mk.injEq] at held
    obtain ⟨a, there, owner, running⟩ := held
    have none' := (Table.count_eq_zero.mp (by simpa using alone)) b a there
    simp [owner, running] at none'

theorem claimLoop_path {pick : Scan → Core → Call (Option (Uuid × Job) × Scan)}
    (picks : Picks env args pick) {scans : ℕ} {wanted : ℤ} {scan : Scan} {jobs : List ClaimedJob}
    (run : claimLoop env args pick scans wanted scan db = .ok (jobs, db')) :
    Metered env starts db db' ∧ (jobs = [] → Aside env db db') := by
  induction scans generalizing wanted scan db jobs with
  | zero =>
    cases run
    exact ⟨.refl _, fun _ => .refl _⟩
  | succ scans ih =>
    unfold claimLoop at run
    split at run
    · cases run
      exact ⟨.refl _, fun _ => .refl _⟩
    · obtain ⟨⟨candidate, scan'⟩, pickRun, run⟩ := seq_eq_ok.mp run
      cases candidate with
      | none =>
        cases run
        exact ⟨.refl _, fun _ => .refl _⟩
      | some found =>
        obtain ⟨id, job⟩ := found
        obtain ⟨stored, good⟩ := picks pickRun
        have aside := admitCandidate_aside env job.toJobRow db
        simp only at run
        split at run
        · simp only [seq_eq_ok] at run
          obtain ⟨⟨claimed, started⟩, start, ⟨rest, last⟩, loop, finish⟩ := run
          cases finish
          refine ⟨aside.metered.trans (Metered.trans (.of_path ?_) (ih loop).1), fun empty => by cases empty⟩
          refine startAttempt_path start ?_ ?_
          · rw [aside.1]
            exact stored
          · rw [aside.1]
            exact good
        · obtain ⟨path, quiet⟩ := ih run
          exact ⟨aside.metered.trans path, fun empty => aside.trans (quiet empty)⟩

/-- A claim that the breaker lets pass starts attempts or reclaims leases. -/
def Serves (env : Env) (db db' : Db) : Prop :=
  Metered env starts db db' ∨ Metered env (reclaims (lapsed env db.toCore)) db db'

theorem Aside.then_serves {mid : Db} (aside : Aside env db mid) (claims : Serves env mid db') :
    Serves env db db' := by
  unfold Serves at claims ⊢
  rw [aside.core] at claims
  exact claims.imp aside.metered.trans aside.metered.trans

theorem runClaim_serves {pick : Scan → Core → Call (Option (Uuid × Job) × Scan)}
    (picks : Picks env args pick) {batch : ℤ} {answer : ClaimBatch}
    (run : runClaim env args pick batch db = .ok (answer, db')) : Serves env db db' := by
  simp only [runClaim, seq_eq_ok] at run
  obtain ⟨⟨jobs, looped⟩, loop, run⟩ := run
  obtain ⟨path, quiet⟩ := claimLoop_path picks loop
  split at run
  · rename_i empty
    obtain ⟨⟨n, last⟩, reap, finish⟩ := seq_eq_ok.mp run
    cases finish
    have aside := quiet (List.isEmpty_iff.mp empty)
    exact aside.then_serves (.inr (.of_path (reapExpired_path reap)))
  · cases run
    exact .inl path

theorem claimBody_serves {pick : ℤ → Db → Scan → Core → Call (Option (Uuid × Job) × Scan)}
    (picks : ∀ batch db, Picks env args (pick batch db)) {answer : ClaimBatch}
    (run : claimBody env args db pick = .ok (answer, db')) : Serves env db db' := by
  simp only [claimBody] at run
  split at run
  · cases run
    exact .inl (.refl _)
  · rename_i q stored
    split at run
    · cases run
      exact .inl (.refl _)
    · obtain ⟨⟨gate, gated⟩, gateRun, run⟩ := seq_eq_ok.mp run
      have aside := queueGate_aside stored gateRun
      split at run
      · cases run
        exact .inl aside.metered
      · exact aside.then_serves (runClaim_serves (picks _ _) run)

/-- A claim passes the gate of its queue's breaker, or is held there. -/
def Claims (env : Env) (queue : String) (db db' : Db) : Prop :=
  ∃ wait gated, breakerGate env queue db = .ok (wait, gated) ∧ Serves env gated db'

theorem gatedClaim_claims {body : Db → Call (ClaimBatch × Db)} {answer : ClaimBatch}
    (serves : ∀ {db answer db'}, body db = .ok (answer, db') → Serves env db db')
    (run : gatedClaim env args body db = .ok (answer, db')) : Claims env args.queue db db' := by
  simp only [gatedClaim, seq_eq_ok] at run
  obtain ⟨-, -, ⟨wait, gated⟩, gate, run⟩ := run
  refine ⟨wait, gated, gate, ?_⟩
  split at run
  · cases run
    exact .inl (.refl _)
  · exact serves run

theorem claimJobs_claims {answer : ClaimBatch} (run : claimJobs env args db = .ok (answer, db')) :
    Claims env args.queue db db' := by
  refine gatedClaim_claims (fun body => ?_) run
  simp only [claimJobsUnattested, seq_eq_ok] at body
  obtain ⟨-, -, -, -, -, -, -, -, -, -, body⟩ := body
  exact claimBody_serves (fun _ _ => pickOrdinary_picks) body

theorem claimJobsWithPolicies_claims {hashes : List String} {answer : ClaimBatch}
    (run : claimJobsWithPolicies env args hashes db = .ok (answer, db')) : Claims env args.queue db db' := by
  refine gatedClaim_claims (fun body => ?_) run
  simp only [claimJobsWithPoliciesUnattested, seq_eq_ok] at body
  obtain ⟨-, -, -, -, -, -, body⟩ := body
  exact claimBody_serves (fun _ _ => pickWithPolicies_picks) body

end Starts

end Taskq
