import Taskq.Claiming.Gates

/-! Rate limits meter claims, and work starts only when the claim can use all that it is granted. -/
namespace Taskq
open Relational

variable {env : Env} {c : ClaimCall} {q : Queue} {rate : ℤ} {answer : ClaimBatch} {db db' : Db}

/-- The claim's charge on the bucket of its queue: one emission interval for each job it returns, taken together. When
it returns none, the bucket is at every later instant what it would have been without the claim. -/
structure MetersStarts (env : Env) (queue : String) (q : Queue) (rate : ℤ) (db : Db) (answer : ClaimBatch)
    (db' : Db) : Prop where
  charged : clampedTat env (db'.tat queue) = clampedTat env (db.tat queue) +
    charge env (bucketLimit env queue q rate db) answer.jobs.length
  idle : answer.jobs = [] → ∀ later : Env, env.now ≤ later.now →
    clampedTat later (db'.tat queue) = clampedTat later (db.tat queue)

theorem clampedTat_later {later : Env} (forward : env.now ≤ later.now) (stored : Option ℚ) :
    clampedTat later stored = max (clampedTat env stored) later.now := by
  have forward : (env.now : ℚ) ≤ later.now := by exact_mod_cast forward
  cases stored with
  | none => simp [clampedTat, forward]
  | some tat =>
    simp only [clampedTat, Option.getD_some, max_assoc, max_eq_right forward]

theorem emissionInterval_le (site : Site) (positive : 0 < rate) : emissionInterval site rate ≤ 60 := by
  have one : (1 : ℚ) ≤ rate := by exact_mod_cast positive
  have few : emissionInterval site rate ≤ ((60 : ℤ) : ℚ) :=
    Arithmetic.divide_le (by exact_mod_cast positive) (by push_cast; linarith)
  exact_mod_cast few

/-- Up to thirty million a minute, two microseconds or more pass between two tokens. -/
theorem le_emissionInterval (site : Site) (positive : 0 < rate) (slow : rate ≤ 30000000) :
    2 / 1000000 ≤ emissionInterval site rate := by
  have positive' : (0 : ℚ) < rate := by exact_mod_cast positive
  have slow' : (rate : ℚ) ≤ 30000000 := by exact_mod_cast slow
  have fine : 16 ≤ quotientScale 1 60 rate :=
    sixteen_le_quotientScale (by norm_num) (by norm_num) (by exact_mod_cast positive)
  have many : ((2 : ℤ) : ℚ) / 10 ^ 6 ≤ emissionInterval site rate :=
    Arithmetic.decimal_le_divide positive' (by omega) (by norm_num; linarith)
  norm_num at many ⊢
  exact many

/-- At such rates different numbers of tokens cost differently, for as many as a claim can take. -/
theorem charge_injective {limit : FlowLimit} (numeric : env.arithmetic = .numeric) (rated : 0 < limit.ratePerMinute)
    (slow : limit.ratePerMinute ≤ 30000000) {m n : ℤ} (nonneg : 0 ≤ m) (less : m < n) (few : n ≤ 50) :
    charge env limit m ≠ charge env limit n := by
  have short := emissionInterval_le env.toSite rated
  have long := le_emissionInterval env.toSite rated slow
  have positive := emissionInterval_pos env.toSite rated
  generalize interval : emissionInterval env.toSite limit.ratePerMinute = t at short long positive
  have nonneg' : (0 : ℚ) ≤ m := by exact_mod_cast nonneg
  have next : (m : ℚ) + 1 ≤ n := by exact_mod_cast less
  have few' : (n : ℚ) ≤ 50 := by exact_mod_cast few
  have more : m * t + t ≤ n * t := by nlinarith
  have small : n * t ≤ 1000000 := by nlinarith
  have hm := Arithmetic.numeric_interval_near (mul_nonneg nonneg' positive.le) (by linarith)
  have hn := Arithmetic.numeric_interval_near (mul_nonneg (by linarith : (0 : ℚ) ≤ n) positive.le) small
  rw [charge, charge, numeric, interval]
  rw [abs_le] at hm hn
  exact ne_of_lt (by linarith [hm.2, hn.1])

theorem leeway_le (env : Env) (queue : String) (q : Queue) {batch : ℤ} (asked : 0 ≤ batch) (db : Db) :
    leeway env queue q batch db ≤ batch := by
  unfold leeway
  dsimp only
  split_ifs
  · exact asked
  · cases q.maxRunning with
    | none => exact le_rfl
    | some m => exact min_le_left _ _

/-- A call that returns is granted no more than the largest batch. -/
theorem ClaimCall.granted_le (run : c.run env db = .ok (answer, db')) (stored : db.queues.get? c.args.queue = some q) :
    c.granted env db ≤ 50 := by
  obtain ⟨wait, gate, -⟩ | ⟨gated, gate, valid, -⟩ := run_cases run
  · have held : breakerPasses env c.args.queue db = false :=
      eq_false_of_ne_true (mt (breakerGate_passes gate).mpr (by simp))
    simp [granted, held]
  · have batch : c.batch ≤ 50 := by
      obtain ⟨-, batch, -⟩ := valid
      obtain ⟨n, given, -, most⟩ := by simpa [Option.any_eq_true] using batch
      unfold ClaimCall.batch
      rw [given]
      split_ifs
      · decide
      · exact most
    simp only [granted, stored]
    split_ifs
    · decide
    · have leeway := (leeway_le env c.args.queue q (one_pos.le.trans (batch_pos valid)) db).trans batch
      unfold Taskq.granted
      split
      · exact leeway
      · exact max_le (by decide) ((min_le_left _ _).trans leeway)
    · decide

/-- A claim on a queue with a rate meters what it starts exactly when the jobs that it can serve cost the bucket as much as
those that its gates grant it: below thirty million jobs a minute, when it starts as many as it is granted, none, or as many
of the first candidates of its lineup. -/
theorem claims_meter_starts {site : Site} {s : System} (reachable : System.Reachable site anyCall s)
    (stored : s.db.queues.get? c.args.queue = some q) (rated : q.claimRatePerMinute = some rate)
    (run : c.run env s.db = .ok (answer, db')) :
    let limit := bucketLimit env c.args.queue q rate s.db
    (MetersStarts env c.args.queue q rate s.db answer db' ↔
      charge env limit (c.serves env s.db (c.granted env s.db)).length = charge env limit (c.granted env s.db)) ∧
    (env.arithmetic = .numeric → limit.ratePerMinute ≤ 30000000 →
      (MetersStarts env c.args.queue q rate s.db answer db' ↔
        (c.serves env s.db (c.granted env s.db)).length = c.granted env s.db)) := by
  have outcome := c.outcome run reachable.rated
  have positive := bucketLimit_rated env c.args.queue q rate s.db
  have charged := (outcome.charges stored rated).charged positive
  have returned : answer.jobs.length = (c.serves env s.db (c.granted env s.db)).length := by
    simpa using congrArg List.length outcome.serves
  have meters : MetersStarts env c.args.queue q rate s.db answer db' ↔
      charge env (bucketLimit env c.args.queue q rate s.db) (c.serves env s.db (c.granted env s.db)).length =
        charge env (bucketLimit env c.args.queue q rate s.db) (c.granted env s.db) := by
    rw [← returned]
    constructor
    · intro meters
      have same := meters.charged
      rw [charged, add_right_inj] at same
      exact same.symm
    · intro same
      have own : clampedTat env (db'.tat c.args.queue) = clampedTat env (s.db.tat c.args.queue) +
          charge env (bucketLimit env c.args.queue q rate s.db) answer.jobs.length := by rw [charged, same]
      refine ⟨own, fun nobody later forward => ?_⟩
      rw [clampedTat_later forward, clampedTat_later forward, own, nobody, List.length_nil, Int.natCast_zero,
        charge_zero, add_zero]
  refine ⟨meters, fun numeric slow => meters.trans ⟨fun same => ?_, fun all => by rw [all]⟩⟩
  have few : ((c.serves env s.db (c.granted env s.db)).length : ℤ) ≤ c.granted env s.db := by
    rw [← returned]
    exact (Int.ofNat_le.mpr outcome.started.1).trans (Int.toNat_of_nonneg (ClaimCall.granted_nonneg stored rated)).le
  by_contra different
  exact charge_injective numeric positive slow (Int.natCast_nonneg _) (lt_of_le_of_ne few different)
    (ClaimCall.granted_le run stored) same

/-- A queue that starts one job a second, one at a time. -/
def oneASecond : Command := .ensureQueue (some "q")
  (some (.build [("claim_rate_per_minute", .ofInt 60), ("claim_burst", .ofInt 1)]))

/-- A claim that starts the job that waits for it meters it. -/
theorem claims_meter_starts_waiting : ∃ (s : System) (q : Queue) (env : Env) (answer : ClaimBatch) (db' : Db),
    answer.jobs ≠ [] ∧ MetersStarts env "q" q 60 s.db answer db' := by
  have played : System.plays .digits [(0, oneASecond), (0, .enqueue (.simple "q"))]
    (.installed .digits 0) (fun s =>
      (oneJob.run (.alone .digits 0 9) s.db).toOption.any fun claimed => !claimed.1.jobs.isEmpty &&
        ((s.db.queues.get? "q").any fun q => q.claimRatePerMinute = some 60 &&
          (bucketLimit (.alone .digits 0 9) "q" q 60 s.db).ratePerMinute ≤ 30000000) &&
        (oneJob.serves (.alone .digits 0 9) s.db (oneJob.granted (.alone .digits 0 9) s.db)).length =
          oneJob.granted (.alone .digits 0 9) s.db) = true := by decide +kernel
  obtain ⟨s, answer, db', reachable, run, there⟩ := ClaimCall.of_plays
    (p := fun db answer _ => !answer.jobs.isEmpty &&
      ((db.queues.get? "q").any fun q => q.claimRatePerMinute = some 60 &&
        (bucketLimit (.alone .digits 0 9) "q" q 60 db).ratePerMinute ≤ 30000000) &&
      (oneJob.serves (.alone .digits 0 9) db (oneJob.granted (.alone .digits 0 9) db)).length =
        oneJob.granted (.alone .digits 0 9) db) played
  simp only [Bool.and_eq_true, decide_eq_true_eq] at there
  obtain ⟨⟨some', rated⟩, all⟩ := there
  obtain ⟨q, stored, rated⟩ := (Option.any_eq_true _ _).mp rated
  simp only [Bool.and_eq_true, decide_eq_true_eq] at rated
  exact ⟨s, q, _, answer, db', by simpa using some',
    ((claims_meter_starts reachable stored rated.1 run).2 rfl rated.2).mpr all⟩

/-- How a claim ends that follows the admission of a job. -/
def claimAfterEnqueue (env : Env) (db : Db) : Call ClaimState := do
  let db ← Command.exec env (.enqueue (.simple "q")) db
  let (answer, _) ← oneJob.run env db
  .ok answer.state

/-- An idle poll takes the only token, and the job that is admitted next is throttled. -/
theorem claims_meter_starts_idle : ∃ (s : System) (q : Queue) (env : Env) (answer : ClaimBatch) (db' : Db),
    System.Reachable .digits anyCall s ∧ s.db.queues.get? "q" = some q ∧
    q.claimRatePerMinute = some 60 ∧ oneJob.run env s.db = .ok (answer, db') ∧ answer.jobs = [] ∧
    claimAfterEnqueue env s.db = .ok .claimed ∧ claimAfterEnqueue env db' = .ok .throttled ∧
    ¬MetersStarts env "q" q 60 s.db answer db' := by
  have played : System.plays .digits [(0, oneASecond)] (.installed .digits 0) (fun s =>
    (oneJob.run (.alone .digits 0 9) s.db).toOption.any fun claimed => claimed.1.jobs.isEmpty &&
      (s.db.queues.get? "q").any (·.claimRatePerMinute = some 60) &&
      claimAfterEnqueue (.alone .digits 0 9) s.db = .ok .claimed &&
      claimAfterEnqueue (.alone .digits 0 9) claimed.2 = .ok .throttled &&
      clampedTat (.alone .digits 0 9) (claimed.2.tat "q") ≠ clampedTat (.alone .digits 0 9) (s.db.tat "q")) = true := by
    decide +kernel
  obtain ⟨s, answer, db', reachable, run, there⟩ := ClaimCall.of_plays
    (p := fun db answer db' => answer.jobs.isEmpty &&
      (db.queues.get? "q").any (·.claimRatePerMinute = some 60) &&
      claimAfterEnqueue (.alone .digits 0 9) db = .ok .claimed &&
      claimAfterEnqueue (.alone .digits 0 9) db' = .ok .throttled &&
      clampedTat (.alone .digits 0 9) (db'.tat "q") ≠ clampedTat (.alone .digits 0 9) (db.tat "q")) played
  simp only [Bool.and_eq_true, decide_eq_true_eq, List.isEmpty_iff] at there
  obtain ⟨⟨⟨⟨nobody, rated⟩, before⟩, after⟩, moved⟩ := there
  obtain ⟨q, stored, rated⟩ := (Option.any_eq_true _ _).mp rated
  exact ⟨s, q, _, answer, db', reachable, stored, by simpa using rated, run, nobody, before, after,
    fun meters => moved (meters.idle nobody _ le_rfl)⟩

end Taskq
