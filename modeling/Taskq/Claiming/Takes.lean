import Taskq.Claiming.Gates
import Taskq.Invariants.History

/-! What a claim takes from the buckets: tokens of its queue for the jobs that it is granted, and one
token of its flow key for each job that it starts. Nothing else ever moves a bucket. -/
namespace Taskq
open Relational

section Keys

variable {env : Env} {args : ClaimArgs} {key : String} {limit : FlowLimit} {id : Uuid} {job : Job}
  {db db' : Db}

/-- The stored arrival time of a flow key's bucket. -/
def Db.keyTat (db : Db) (key : String) : Option ℚ := (db.flowState.get? key).getD none

/-- The jobs among some ids that a predicate selects. -/
def countJobs (p : JobRow → Bool) (core : Core) (ids : List Uuid) : ℕ :=
  ids.countP fun id => (core.jobs.get? id).any fun j => p j.toJobRow

theorem flowKeyAdmit_others (env : Env) (db : Db) {other : String} (away : other ≠ key) :
    (flowKeyAdmit env other db).2.keyTat key = db.keyTat key := by
  have kept (x : Option ℚ) :
      ({ db with flowState := db.flowState.put other x } : Db).keyTat key = db.keyTat key := by
    simp [Db.keyTat, Table.get?_put_of_ne _ _ (Ne.symm away)]
  unfold flowKeyAdmit
  split
  · rfl
  · split
    · rfl
    · dsimp only
      split <;> exact kept _

/-- The bucket of a limit in exact time: the microseconds between two tokens, and the tokens of a burst. -/
def FlowLimit.bucket (limit : FlowLimit) : Bucket where
  interval := 60000000 / limit.ratePerMinute
  burst := limit.burst.getD limit.ratePerMinute

theorem FlowLimit.bucket_positive (rated : 0 < limit.ratePerMinute) : 0 < limit.bucket.interval := by
  have : (0 : ℚ) < limit.ratePerMinute := by exact_mod_cast rated
  unfold FlowLimit.bucket
  positivity

theorem emissionInterval_exact {site : Site} (exact : site.arithmetic = .exact) (limit : FlowLimit) :
    emissionInterval site limit.ratePerMinute = limit.bucket.interval / 1000000 := by
  rw [emissionInterval, exact, Arithmetic.exact_divide, FlowLimit.bucket]
  ring

theorem flowKeyAdmit_spends (exact : env.arithmetic = .exact) (rated : db.Rated)
    (limited : db.flowLimits.get? key = some limit) (other : String) : limit.bucket.Spends env.now
      (Bool.toNat ((flowKeyAdmit env other db).1 && decide (other = key)))
      (db.keyTat key) ((flowKeyAdmit env other db).2.keyTat key) := by
  by_cases same : other = key
  · subst same
    have positive := FlowLimit.bucket_positive (rated other limit limited)
    unfold flowKeyAdmit
    rw [limited]
    dsimp only
    rw [emissionInterval_exact exact, exact, Arithmetic.exact_interval]
    split
    · exact .none_taken _ _ _
    · split
      · have stays : ({ db with flowState := db.flowState.put other ((db.flowState.get? other).getD none) } :
            Db).keyTat other = db.keyTat other := by simp [Db.keyTat]
        rw [stays]
        exact .none_taken _ _ _
      · rename_i wet
        refine .inr ⟨by simp, ?_, ?_⟩
        · refine (Bucket.le_tokens positive _).mpr ?_
          have room : (arrival env.now (db.keyTat other) - env.now) / 1000000 ≤
              limit.bucket.interval / 1000000 * limit.bucket.burst - limit.bucket.interval / 1000000 := not_lt.mp wet
          push_cast [Bool.toNat]
          simp only [decide_true, Bool.and_true, cond_true, Nat.cast_one]
          linarith
        · simp [Db.keyTat, arrival]
          rfl
  · rw [flowKeyAdmit_others env db same, decide_eq_false same, Bool.and_false]
    exact .none_taken _ _ _

/-- A bucket of a flow key never goes back, however its charges are rounded. -/
theorem flowKeyAdmit_later (env : Env) (rated : db.Rated) (other key : String) :
    Bucket.Later (db.keyTat key) ((flowKeyAdmit env other db).2.keyTat key) := by
  by_cases same : other = key
  · subst same
    have kept (x : Option ℚ) :
        ({ db with flowState := db.flowState.put other x } : Db).keyTat other = x := by
      simp [Db.keyTat]
    unfold flowKeyAdmit
    split
    · exact .refl _
    · rename_i limit limited
      dsimp only
      split
      · exact .refl _
      · split
        · rw [kept]
          exact .refl _
        · rw [kept]
          intro x stored
          refine ⟨_, rfl, ?_⟩
          have from' : x ≤ clampedTat env (db.keyTat other) := by
            rw [stored]
            exact le_max_left _ _
          have onward := env.arithmetic.interval_nonneg (emissionInterval_pos env.toSite (rated other limit limited)).le
          exact from'.trans (le_add_of_nonneg_right onward)
  · rw [flowKeyAdmit_others env db same]
    exact .refl _

theorem admitCandidate_spends (exact : env.arithmetic = .exact) (rated : db.Rated)
    (limited : db.flowLimits.get? key = some limit) (row : JobRow) : limit.bucket.Spends env.now
      (Bool.toNat ((admitCandidate env row db).1 && decide (row.flowKey = some key)))
      (db.keyTat key) ((admitCandidate env row db).2.keyTat key) := by
  unfold admitCandidate
  dsimp only
  split
  · exact .none_taken _ _ _
  · split
    · rename_i unkeyed
      simpa [unkeyed] using Bucket.Spends.none_taken _ _ _
    · rename_i other keyed
      simpa [keyed] using flowKeyAdmit_spends exact rated limited other

/-- A started job keeps its place in every count by its identity. -/
theorem countJobs_start {core core' : Core} {row : Job} (jobs : core'.jobs = core.jobs.put id row)
    (stored : core.jobs.get? id = some job) {p : JobRow → Bool} (same : p row.toJobRow = p job.toJobRow)
    (ids : List Uuid) : countJobs p core' ids = countJobs p core ids := by
  unfold countJobs
  refine List.countP_congr fun other _ => ?_
  rw [jobs, Table.get?_put]
  split_ifs with here
  · rw [here, stored]
    simp [same]
  · rfl

/-- The loop takes one token of a limited flow key for each job of the key that it starts. -/
theorem claimLoop_spends {pick : Scan → Core → Call (Option (Uuid × Job) × Scan)} {scans : ℕ} {wanted : ℤ}
    {scan : Scan} {jobs : List ClaimedJob} (picks : Picks env args pick) (exact : env.arithmetic = .exact)
    (rated : db.Rated) (limited : db.flowLimits.get? key = some limit)
    (run : claimLoop env args pick scans wanted scan db = .ok (jobs, db')) :
    limit.bucket.Spends env.now
      (countJobs (fun j => j.flowKey = some key) db.toCore (jobs.map (·.jobId)))
      (db.keyTat key) (db'.keyTat key) := by
  have positive := FlowLimit.bucket_positive (rated key limit limited)
  induction scans generalizing wanted scan db jobs with
  | zero =>
    cases run
    exact .none_taken _ _ _
  | succ scans ih =>
    unfold claimLoop at run
    split at run
    · cases run
      exact .none_taken _ _ _
    · obtain ⟨⟨candidate, scan'⟩, picked, run⟩ := seq_eq_ok.mp run
      dsimp only at run
      split at run
      · cases run
        exact .none_taken _ _ _
      · rename_i id job
        obtain ⟨stored, -⟩ := picks picked
        obtain ⟨core, settings, -⟩ := admitCandidate_aside env job.toJobRow db
        have limits : (admitCandidate env job.toJobRow db).2.flowLimits = db.flowLimits :=
          congrArg (fun s => s.2.2.2.1) settings
        have first := admitCandidate_spends exact rated limited job.toJobRow
        split at run
        · rename_i admitted
          simp only [seq_eq_ok] at run
          obtain ⟨⟨claimed, started⟩, start, ⟨others, last⟩, loop, finish⟩ := run
          cases finish
          obtain ⟨own, row, _, _, _, _, -, kept, frame⟩ := startAttempt_frame start
          have rows : started.jobs = db.jobs.put id row := by rw [frame, ← core]
          have limits' : started.flowLimits = db.flowLimits := by rw [frame]; exact limits
          have keys : started.keyTat key = (admitCandidate env job.toJobRow db).2.keyTat key := by
            rw [frame]
            rfl
          have rest := ih (rated.congr limits') (limits' ▸ limited) loop
          have carries : row.flowKey = job.flowKey := congrArg Identity.flowKey kept
          rw [countJobs_start rows stored (by rw [carries]), keys] at rest
          have both := first.trans positive rest
          rw [admitted, Bool.true_and] at both
          convert both using 1
          simp only [countJobs, List.map_cons, List.countP_cons, own, stored, Option.any_some]
          by_cases mine : job.flowKey = some key <;> simp [mine, Nat.add_comm]
        · rename_i refused
          have rest := ih (rated.congr limits) (limits ▸ limited) run
          rw [eq_false_of_ne_true refused, Bool.false_and] at first
          have both := first.trans positive rest
          rwa [core, Bool.toNat_false, Nat.zero_add] at both

end Keys

section Claims

variable {env : Env} {c : ClaimCall} {answer : ClaimBatch} {q : Queue} {key queue : String}
  {limit : FlowLimit} {rate : ℤ} {db db' : Db}

/-- In exact time a bucket that is charged for some tokens gives them. -/
theorem Charges.spends {n : ℤ} {before after : Option ℚ} (exact : env.arithmetic = .exact)
    (charges : Charges env limit n before after) : limit.bucket.Spends env.now n.toNat before after := by
  obtain ⟨rfl, rfl⟩ | ⟨some', room, rfl⟩ := charges
  · exact .none_taken _ _ _
  · have whole : ((n.toNat : ℤ) : ℚ) = n := by exact_mod_cast Int.toNat_of_nonneg some'.le
    refine .inr ⟨by omega, ?_, ?_⟩
    · refine (Int.toNat_of_nonneg some'.le).trans_le (room.trans (le_of_eq ?_))
      rw [tokensLeft, exact, Arithmetic.exact_divide, emissionInterval_exact exact, Bucket.tokens]
      congr 1
      have : clampedTat env before = arrival env.now before := rfl
      rw [this, show limit.burst.getD limit.ratePerMinute = limit.bucket.burst from rfl]
      field_simp
    · rw [← Int.cast_natCast, whole, charge, exact, Arithmetic.exact_interval, emissionInterval_exact exact]
      congr 2
      ring

namespace ClaimCall

/-- A claim takes one token of a limited flow key for each job of the key that it starts. -/
theorem spends_key (run : c.run env db = .ok (answer, db')) (exact : env.arithmetic = .exact)
    (rated : db.Rated) (limited : db.flowLimits.get? key = some limit) : limit.bucket.Spends env.now
      (countJobs (fun j => j.flowKey = some key) db.toCore (answer.jobs.map (·.jobId)))
      (db.keyTat key) (db'.keyTat key) := by
  obtain ⟨nobody, unseen⟩ | ⟨n, entered, looped, unseen, -, -, loop, ends⟩ := run_loops run
  · have same : db'.keyTat key = db.keyTat key := by simp [Db.keyTat, unseen.keys]
    rw [nobody, same]
    exact .none_taken _ _ _
  · have limited' : entered.flowLimits.get? key = some limit := by
      rw [show entered.flowLimits = db.flowLimits from congrArg (fun s => s.2.2.2.1) unseen.settings]
      exact limited
    have spends := claimLoop_spends (c.picks env n entered) exact (unseen.rated rated) limited' loop
    have same : entered.keyTat key = db.keyTat key := by simp [Db.keyTat, unseen.keys]
    rw [same, unseen.core] at spends
    obtain rfl | ⟨-, k, reap⟩ := ends
    · exact spends
    · have reaped : db'.flowState = looped.flowState := congrArg Prod.snd (reapExpired_path reap).logs.keeps.1
      have last : db'.keyTat key = looped.keyTat key := by simp [Db.keyTat, reaped]
      rwa [last]

theorem queueGate_others {batch : ℤ} {gate : Except ClaimBatch ℤ}
    (run : queueGate env c.args q batch db = .ok (gate, db')) (away : queue ≠ c.args.queue) :
    db'.tat queue = db.tat queue := by
  simp only [queueGate] at run
  split at run
  · cases run
    rfl
  · split at run
    · cases run
      rfl
    · obtain ⟨⟨grant, consumed⟩, consume, run⟩ := seq_eq_ok.mp run
      split at run <;> cases run <;> exact flowConsumeQueue_others consume away

/-- A claim leaves the buckets of the other queues alone. -/
theorem Outcome.others (outcome : c.Outcome env db answer db') (away : queue ≠ c.args.queue) :
    db'.tat queue = db.tat queue := by
  have gated {wait : Option ℤ} {gated : Db} (gate : breakerGate env c.args.queue db = .ok (wait, gated)) :
      gated.tat queue = db.tat queue := congrFun (breakerGate_tat gate) queue
  cases outcome with
  | held gate => exact gated gate
  | unknown gate => exact gated gate
  | paused gate => exact gated gate
  | throttled gate _ _ full => exact (queueGate_others full away).trans (gated gate)
  | served gate _ _ grant _ _ flows =>
    refine Eq.trans ?_ ((queueGate_others grant away).trans (gated gate))
    simp only [Db.tat, flows]
  | empty gate _ _ grant _ _ flows reap =>
    have reaped : db'.tat queue = _ := congrFun (congrArg Prod.fst (reapExpired_path reap).logs.keeps.1) queue
    refine reaped.trans (Eq.trans ?_ ((queueGate_others grant away).trans (gated gate)))
    simp only [Db.buckets, Db.tat, flows]

end ClaimCall

end Claims

section Later

variable {env : Env} {command : Command} {db mid db' : Db}

/-- No bucket goes back. -/
def Onward (db db' : Db) : Prop :=
  (∀ queue, Bucket.Later (db.tat queue) (db'.tat queue)) ∧
    ∀ key, Bucket.Later (db.keyTat key) (db'.keyTat key)

namespace Onward

theorem of_buckets (kept : db'.buckets = db.buckets) : Onward db db' := by
  have tat : db'.tat = db.tat := congrArg Prod.fst kept
  have keys : db'.flowState = db.flowState := congrArg Prod.snd kept
  refine ⟨fun queue => ?_, fun key => ?_⟩
  · rw [tat]
    exact .refl _
  · simp only [Db.keyTat, keys]
    exact .refl _

theorem trans (first : Onward db mid) (second : Onward mid db') : Onward db db' :=
  ⟨fun queue => (first.1 queue).trans (second.1 queue), fun key => (first.2 key).trans (second.2 key)⟩

end Onward

theorem Setting.buckets (setting : Setting env db db') : db'.buckets = db.buckets := by
  cases setting with
  | queues | slots | rates => rfl
  | @flow queues queue row edit =>
    have own : (db.flowOf env queue).tat = db.tat queue := by
      unfold Db.flowOf Db.tat
      cases db.queueFlow.get? queue <;> rfl
    have kept : row.tat = db.tat queue := by
      rw [← own]
      cases edit <;> rfl
    exact congrArg (·, db.flowState) (Db.tat_kept kept)

theorem Statement.onward {entries : List Logged} (statement : Statement env entries db db')
    (rated : db.Rated) : Onward db db' := by
  cases statement with
  | gate run =>
    have tat := breakerGate_tat run
    obtain ⟨flows, rfl⟩ := breakerGate_frame run
    exact .of_buckets (congrArg (·, db.flowState) tat)
  | body statement =>
    cases statement with
    | job statement => exact .of_buckets statement.keeps.1
    | @consume _ _ queue q rate want grant stored _ run =>
      refine ⟨fun other => ?_, ?_⟩
      · by_cases same : other = queue
        · subst same
          have limit : bucketLimit env other q rate db = _ := rfl
          obtain ⟨_, -, -, kept⟩ | ⟨-, -, charges⟩ := flowConsumeQueue_tokens limit run
          · rw [kept]
            exact .refl _
          · exact charges.later (bucketLimit_rated env other q rate db)
        · rw [flowConsumeQueue_others run same]
          exact .refl _
      · obtain ⟨flows, rfl⟩ := flowConsumeQueue_frame run
        exact fun key => .refl _
    | key key =>
      obtain ⟨keys, frame⟩ := flowKeyAdmit_frame env key db
      exact ⟨by rw [frame]; exact fun queue => .refl _, fun other => flowKeyAdmit_later env rated key other⟩

/-- Only claims touch a bucket. -/
theorem Command.buckets (run : command.exec env db = .ok db') (other : command.claim = none) :
    db'.buckets = db.buckets := by
  have acts := (Command.exec_effect run).2.1
  cases command with
  | claimJobs | claimJobsWithPolicies => cases other
  | ensureQueue | pauseQueue | resumeQueue | setConcurrencyLimit | setFlowLimit | setBreakerConfig
  | setBreakerRate | setBreakerLatency | tripBreaker | forceCloseBreaker | setPriorityAging =>
    exact Setting.buckets acts
  | _ => exact (Logs.keeps acts).1

/-- No call sets a bucket back. -/
theorem Command.onward (run : command.exec env db = .ok db') (rated : db.Rated) : Onward db db' := by
  obtain ⟨log, statements⟩ | setting := Command.exec_made run
  · have all : Onward db db' ∧ db'.limits = db.limits :=
      statements.induction_on (P := fun _ db' => Onward db db' ∧ db'.limits = db.limits)
        ⟨.of_buckets rfl, rfl⟩ fun before last =>
          ⟨before.1.trans (last.onward (rated.congr (congrArg Prod.snd before.2))),
            last.limits.trans before.2⟩
    exact all.1
  · exact .of_buckets setting.buckets

end Later

end Taskq
