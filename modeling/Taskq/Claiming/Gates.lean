import Taskq.Invariants.Flows

/-! The gates of a claim before its loop: whether the breaker lets it pass, how many jobs the pause and
the running cap leave to it, and how many tokens it takes from the bucket of the queue. -/
namespace Taskq
open Relational

variable {env : Env} {c : ClaimCall} {queue : String} {q : Queue} {answer : ClaimBatch} {db db' : Db}

/-- The breaker of the queue lets a claim pass: there is none, it is closed, or its cooldown is over. -/
def breakerPasses (env : Env) (queue : String) (db : Db) : Bool :=
  match db.queueFlow.get? queue with
  | none => true
  | some flow =>
    flow.breakerFailureThreshold.isNone || flow.breakerState = .closed ||
      (flow.breakerState = .opened && flow.breakerTrippedAt.any fun tripped =>
        tripped + seconds (flow.breakerCooldownSeconds.getD 30) ≤ env.now)

/-- What the running cap leaves of a batch. -/
def leeway (env : Env) (queue : String) (q : Queue) (batch : ℤ) (db : Db) : ℤ :=
  let running := ((db.queueCounters.get? queue).map (·.running)).getD 0
  let cap := q.maxRunning.map fun m => max 1 ⌊m * flowScale env db queue q.rampSeconds⌋
  if cap.any (· ≤ running) then 0 else (cap.map fun c => min batch (c - running)).getD batch

/-- The rate and burst of the bucket of a queue; a ramp scales the rate. -/
def bucketLimit (env : Env) (queue : String) (q : Queue) (rate : ℤ) (db : Db) : FlowLimit where
  ratePerMinute := max 1 ⌊rate * flowScale env db queue q.rampSeconds⌋
  burst := some (max 1 (q.claimBurst.getD rate))

/-- The tokens that the bucket of a queue holds: the whole intervals that its arrival time is short of the burst. -/
def tokensLeft (env : Env) (limit : FlowLimit) (stored : Option ℚ) : ℤ :=
  let t := emissionInterval env.toSite limit.ratePerMinute
  let bw := t * (limit.burst.getD limit.ratePerMinute)
  ⌊env.arithmetic.divide (max 6 (emissionScale limit.ratePerMinute))
    ((env.now - clampedTat env stored) / 1000000 + bw) t⌋

/-- The seconds to the next token of a bucket that holds none. -/
def waitLeft (env : Env) (limit : FlowLimit) (stored : Option ℚ) : ℚ :=
  let t := emissionInterval env.toSite limit.ratePerMinute
  let bw := t * (limit.burst.getD limit.ratePerMinute)
  (clampedTat env stored - env.now) / 1000000 - bw + t

/-- How far some tokens move the arrival time of a bucket on, in microseconds. -/
def charge (env : Env) (limit : FlowLimit) (n : ℤ) : ℚ :=
  env.arithmetic.interval (n * emissionInterval env.toSite limit.ratePerMinute)

/-- The bucket of a queue is charged for some tokens: none, or as many as it holds. -/
def Charges (env : Env) (limit : FlowLimit) (n : ℤ) (before after : Option ℚ) : Prop :=
  n = 0 ∧ after = before ∨
    0 < n ∧ n ≤ tokensLeft env limit before ∧ after = some (clampedTat env before + charge env limit n)

/-- The jobs that the cap and the bucket of a queue grant: whole tokens, while there are any. -/
def granted (env : Env) (queue : String) (q : Queue) (batch : ℤ) (db : Db) : ℤ :=
  match q.claimRatePerMinute with
  | none => leeway env queue q batch db
  | some rate => max 0 (min (leeway env queue q batch db)
      (tokensLeft env (bucketLimit env queue q rate db) (db.tat queue)))

/-- The jobs that all gates together grant to a claim. -/
def ClaimCall.granted (env : Env) (c : ClaimCall) (db : Db) : ℤ :=
  if breakerPasses env c.args.queue db then
    match db.queues.get? c.args.queue with
    | none => 0
    | some q => if q.pausedAt.isSome then 0 else Taskq.granted env c.args.queue q c.batch db
  else 0

section Breaker

/-- A claim that is held back leaves the breaker alone, unless its probe was lost. -/
theorem breakerGate_passes {wait : Option ℤ} (run : breakerGate env queue db = .ok (wait, db')) :
    wait = none ↔ breakerPasses env queue db = true := by
  unfold breakerGate at run
  split at run
  · rename_i missing
    cases run
    simp [breakerPasses, missing]
  · rename_i flow found
    unfold breakerPasses
    rw [found]
    split at run
    · rename_i passes
      cases run
      simp only [true_iff]
      rcases passes with off | closed
      · simp [off]
      · simp [closed]
    · rename_i held
      simp only [not_or] at held
      have held : flow.breakerFailureThreshold.isNone = false := eq_false_of_ne_true held.1
      simp only at run
      split at run
      · rename_i tripped opened since
        simp only [held, opened, since, Option.any_some, Bool.false_or]
        split at run
        · rename_i early
          obtain ⟨_, -, finish⟩ := seq_eq_ok.mp run
          cases finish
          have : ¬tripped + seconds (flow.breakerCooldownSeconds.getD 30) ≤ env.now :=
            not_le.mpr (sub_pos.mp early)
          simp [this]
        · rename_i late
          cases run
          have : tripped + seconds (flow.breakerCooldownSeconds.getD 30) ≤ env.now :=
            sub_nonpos.mp (not_lt.mp late)
          simp [this]
      · rename_i tripped half since
        simp only [held, half]
        split at run <;> cases run <;> simp
      · rename_i neither _
        cases run
        simp only [held, reduceCtorEq, false_iff, Bool.false_or, Bool.or_eq_true, decide_eq_true_eq,
          Bool.and_eq_true, not_or, not_and]
        refine ⟨by tauto, fun opened since => ?_⟩
        obtain ⟨tripped, there, -⟩ := (Option.any_eq_true _ _).mp since
        exact neither tripped opened there

theorem breakerGate_total (passes : breakerPasses env queue db = true) :
    ∃ gated, breakerGate env queue db = .ok (none, gated) := by
  suffices ∃ wait gated, breakerGate env queue db = .ok (wait, gated) by
    obtain ⟨wait, gated, run⟩ := this
    exact ⟨gated, (breakerGate_passes run).mpr passes ▸ run⟩
  unfold breakerPasses at passes
  unfold breakerGate
  split
  · exact ⟨_, _, rfl⟩
  · rename_i flow found
    simp only [found] at passes
    split
    · exact ⟨_, _, rfl⟩
    · rename_i held
      simp only [not_or] at held
      dsimp only
      split
      · rename_i tripped opened since
        have late : ¬0 < tripped + seconds (flow.breakerCooldownSeconds.getD 30) - env.now := by
          simp only [held, opened, since, Option.any_some, Bool.or_eq_true, decide_eq_true_eq,
            Bool.and_eq_true, false_or, reduceCtorEq, true_and] at passes
          exact not_lt.mpr (sub_nonpos.mpr passes)
        rw [if_neg late]
        exact ⟨_, _, rfl⟩
      · split_ifs <;> exact ⟨_, _, rfl⟩
      · exact ⟨_, _, rfl⟩

theorem breakerGate_meter {wait : Option ℤ} (run : breakerGate env queue db = .ok (wait, db')) :
    db'.meter = db.meter := by
  unfold breakerGate at run
  split at run
  · cases run
    rfl
  · rename_i flow found
    split at run
    · cases run
      rfl
    · simp only at run
      split at run
      · split at run
        · obtain ⟨_, -, finish⟩ := seq_eq_ok.mp run
          cases finish
          rfl
        · cases run
          exact Db.meter_kept found rfl rfl
      · split at run <;> cases run
        · exact Db.meter_kept found rfl rfl
        · rfl
      · cases run
        rfl

theorem breakerGate_tat {wait : Option ℤ} (run : breakerGate env queue db = .ok (wait, db')) :
    db'.tat = db.tat :=
  Db.tat_of_meter (breakerGate_meter run)

end Breaker

section Bucket

theorem bucketLimit_rated (env : Env) (queue : String) (q : Queue) (rate : ℤ) (db : Db) :
    0 < (bucketLimit env queue q rate db).ratePerMinute :=
  lt_of_lt_of_le one_pos (le_max_left _ _)

variable {limit : FlowLimit} {stored : Option ℚ}

theorem charge_nonneg (env : Env) (rated : 0 < limit.ratePerMinute) {n : ℤ} (nonneg : 0 ≤ n) :
    0 ≤ charge env limit n :=
  env.arithmetic.interval_nonneg
    (mul_nonneg (by exact_mod_cast nonneg) (emissionInterval_pos env.toSite rated).le)

theorem charge_zero (env : Env) (limit : FlowLimit) : charge env limit 0 = 0 := by
  rw [charge, Int.cast_zero, zero_mul, env.arithmetic.interval_zero]

/-- A bucket holds no more than its burst. -/
theorem tokensLeft_le_burst (env : Env) (rated : 0 < limit.ratePerMinute) (stored : Option ℚ) :
    tokensLeft env limit stored ≤ limit.burst.getD limit.ratePerMinute := by
  have ahead : (env.now : ℚ) ≤ clampedTat env stored := le_max_right _ _
  refine Int.cast_le.mp ((Int.floor_le _).trans
    (env.arithmetic.divide_le (emissionInterval_pos env.toSite rated) ?_))
  linarith

/-- A bucket whose wait is over holds a token. -/
theorem tokensLeft_pos (env : Env) (rated : 0 < limit.ratePerMinute) (waited : waitLeft env limit stored ≤ 0) :
    0 < tokensLeft env limit stored := by
  unfold waitLeft at waited
  dsimp only at waited
  refine Int.lt_iff_add_one_le.mpr (Int.le_floor.mpr
    (env.arithmetic.le_divide (emissionInterval_pos env.toSite rated) ?_))
  push_cast
  linarith

namespace Charges

variable {n : ℤ} {before after : Option ℚ}

theorem none_taken (env : Env) (limit : FlowLimit) (stored : Option ℚ) : Charges env limit 0 stored stored :=
  .inl ⟨rfl, rfl⟩

/-- The arrival time moves on by the charge. -/
theorem charged (rated : 0 < limit.ratePerMinute) (charges : Charges env limit n before after) :
    clampedTat env after = clampedTat env before + charge env limit n := by
  obtain ⟨rfl, rfl⟩ | ⟨some', -, rfl⟩ := charges
  · rw [charge_zero, add_zero]
  · exact clampedTat_charged env before (charge_nonneg env rated some'.le)

theorem later (rated : 0 < limit.ratePerMinute) (charges : Charges env limit n before after) :
    Bucket.Later before after := by
  obtain ⟨-, rfl⟩ | ⟨some', -, rfl⟩ := charges
  · exact .refl _
  · rintro x rfl
    refine ⟨_, rfl, ?_⟩
    have from' : x ≤ clampedTat env (some x) := le_max_left _ _
    have onward := charge_nonneg env rated some'.le
    linarith

end Charges

/-- The bucket of a queue gives whole tokens, as many as are asked for and there are, or none. -/
theorem flowConsumeQueue_tokens {rate burst want : ℤ} {scale : ℚ} {grant : Grant} {limit : FlowLimit}
    (rated : limit = ⟨max 1 ⌊rate * scale⌋, some (max 1 burst)⟩)
    (run : flowConsumeQueue env queue rate burst scale want db = .ok (grant, db')) :
    (∃ wait, grant = .wait wait ∧ min want (tokensLeft env limit (db.tat queue)) ≤ 0 ∧
      db'.tat = db.tat) ∨
    (grant = .tokens (min want (tokensLeft env limit (db.tat queue))) ∧
      0 < min want (tokensLeft env limit (db.tat queue)) ∧
      Charges env limit (min want (tokensLeft env limit (db.tat queue))) (db.tat queue) (db'.tat queue)) := by
  have own : ((db.queueFlow.get? queue).getD (.fresh env.now)).tat = db.tat queue := by
    unfold Db.tat
    cases db.queueFlow.get? queue <;> rfl
  subst rated
  simp only [flowConsumeQueue, seq_eq_ok, int4_eq_ok] at run
  obtain ⟨available, ⟨-, rfl⟩, run⟩ := run
  rw [own] at run
  split at run
  · rename_i dry
    obtain ⟨wait, -, finish⟩ := seq_eq_ok.mp run
    cases finish
    exact .inl ⟨wait, rfl, dry, Db.tat_kept own⟩
  · rename_i some'
    cases run
    have positive : 0 < min want (tokensLeft env ⟨max 1 ⌊rate * scale⌋, some (max 1 burst)⟩ (db.tat queue)) :=
      not_le.mp some'
    refine .inr ⟨rfl, positive, .inr ⟨positive, min_le_right _ _, ?_⟩⟩
    exact (congrFun (Db.tat_putFlow _ _ _) queue).trans (if_pos rfl)

/-- A dry bucket tells when its next token comes. -/
theorem flowConsumeQueue_wait {rate burst want n : ℤ} {scale : ℚ} {limit : FlowLimit}
    (rated : limit = ⟨max 1 ⌊rate * scale⌋, some (max 1 burst)⟩)
    (run : flowConsumeQueue env queue rate burst scale want db = .ok (.wait n, db')) :
    waitLeft env limit (db.tat queue) ≤ n ∧ db'.tat = db.tat := by
  have own : ((db.queueFlow.get? queue).getD (.fresh env.now)).tat = db.tat queue := by
    unfold Db.tat
    cases db.queueFlow.get? queue <;> rfl
  subst rated
  simp only [flowConsumeQueue, seq_eq_ok, int4_eq_ok] at run
  obtain ⟨available, -, run⟩ := run
  rw [own] at run
  split at run
  · obtain ⟨wait, limits, finish⟩ := seq_eq_ok.mp run
    cases finish
    obtain ⟨-, rfl⟩ := int4_eq_ok.mp limits
    exact ⟨(Int.le_ceil _).trans (Int.cast_le.mpr (le_max_right 1 _)), Db.tat_kept own⟩
  · cases run

/-- A claim leaves the buckets of the other queues alone. -/
theorem flowConsumeQueue_others {rate burst want : ℤ} {scale : ℚ} {grant : Grant}
    (run : flowConsumeQueue env queue rate burst scale want db = .ok (grant, db')) {other : String}
    (away : other ≠ queue) : db'.tat other = db.tat other := by
  have elsewhere (db : Db) (flow : QueueFlow) : (db.putFlow queue flow).tat other = db.tat other :=
    (congrFun (Db.tat_putFlow db queue flow) other).trans (if_neg away)
  simp only [flowConsumeQueue, seq_eq_ok] at run
  obtain ⟨available, -, run⟩ := run
  split at run
  · obtain ⟨_, -, finish⟩ := seq_eq_ok.mp run
    cases finish
    exact elsewhere _ _
  · cases run
    exact (elsewhere _ _).trans (elsewhere _ _)

theorem flowConsumeQueue_total {rate burst want : ℤ} {scale : ℚ} {limit : FlowLimit}
    (rated : limit = ⟨max 1 ⌊rate * scale⌋, some (max 1 burst)⟩)
    (low : -2147483648 ≤ tokensLeft env limit (db.tat queue))
    (high : tokensLeft env limit (db.tat queue) ≤ 2147483647)
    (positive : 0 < max 0 (min want (tokensLeft env limit (db.tat queue)))) :
    ∃ grant db', flowConsumeQueue env queue rate burst scale want db = .ok (grant, db') := by
  have own : ((db.queueFlow.get? queue).getD (.fresh env.now)).tat = db.tat queue := by
    unfold Db.tat
    cases db.queueFlow.get? queue <;> rfl
  subst rated
  have whole := int4_eq_ok.mpr ⟨⟨low, high⟩, rfl⟩
  have some' : ¬min want (tokensLeft env ⟨max 1 ⌊rate * scale⌋, some (max 1 burst)⟩ (db.tat queue)) ≤ 0 := by
    omega
  unfold flowConsumeQueue
  dsimp only
  rw [own]
  simp only [seq_eq_ok]
  exact ⟨_, _, _, whole, if_neg some'⟩

theorem queueGate_granted {args : ClaimArgs} {batch : ℤ} {gate : Except ClaimBatch ℤ}
    (run : queueGate env args q batch db = .ok (gate, db')) :
    (∀ n, gate = .ok n → n = granted env args.queue q batch db ∧ ∀ rate, q.claimRatePerMinute = some rate →
      Charges env (bucketLimit env args.queue q rate db) n (db.tat args.queue) (db'.tat args.queue)) ∧
    (∀ throttled, gate = .error throttled → granted env args.queue q batch db = 0 ∧ db'.tat = db.tat) := by
  simp only [queueGate] at run
  split at run
  · rename_i full
    cases run
    refine ⟨fun n h => (by cases h), fun throttled _ => ⟨?_, rfl⟩⟩
    simp only [granted, leeway, full, if_true]
    cases q.claimRatePerMinute with
    | none => rfl
    | some rate => exact max_eq_left (min_le_left _ _)
  · rename_i free
    have free' := eq_false_of_ne_true free
    cases rates : q.claimRatePerMinute with
    | none =>
      rw [rates] at run
      cases run
      refine ⟨fun n h => ?_, fun throttled h => by cases h⟩
      cases h
      refine ⟨by simp only [granted, leeway, rates, free', Bool.false_eq_true, if_false], fun rate h => by cases h⟩
    | some rate =>
      rw [rates] at run
      obtain ⟨⟨grant, consumed⟩, consume, run⟩ := seq_eq_ok.mp run
      have tokens := flowConsumeQueue_tokens
        (show bucketLimit env args.queue q rate db = _ from rfl) consume
      simp only [granted, leeway, rates, free', Bool.false_eq_true, if_false]
      obtain ⟨wait, rfl, dry, kept⟩ | ⟨rfl, some', taken⟩ := tokens
      · cases run
        exact ⟨fun n h => (by cases h), fun throttled h => ⟨max_eq_left dry, kept⟩⟩
      · cases run
        refine ⟨fun n h => ?_, fun throttled h => by cases h⟩
        cases h
        rw [min_eq_right (min_le_left _ _), max_eq_right some'.le]
        refine ⟨rfl, fun rate' h => ?_⟩
        cases h
        exact taken

end Bucket

section Answer

/-- What a claim's gates leave alone keeps the scale of the queue. -/
theorem Unseen.scale (unseen : Unseen queue db db') (ramp : Option ℤ) :
    flowScale env db' queue ramp = flowScale env db queue ramp := by
  unfold flowScale
  rw [unseen.ramp]

theorem Unseen.bucketLimit (unseen : Unseen queue db db') (rate : ℤ) :
    bucketLimit env queue q rate db' = bucketLimit env queue q rate db := by
  simp only [Taskq.bucketLimit, unseen.scale]

theorem Unseen.leeway (unseen : Unseen queue db db') (batch : ℤ) :
    leeway env queue q batch db' = leeway env queue q batch db := by
  simp only [Taskq.leeway, unseen.scale, unseen.counters]

theorem Unseen.granted (unseen : Unseen queue db db') (tat : db'.tat = db.tat) (batch : ℤ) :
    granted env queue q batch db' = granted env queue q batch db := by
  simp only [Taskq.granted, unseen.leeway, unseen.bucketLimit, tat]

namespace ClaimCall

/-- A call that its breaker lets pass, on a queue that is not paused, is granted what the cap and the
bucket grant. -/
theorem granted_going {gated : Db} (gate : breakerGate env c.args.queue db = .ok (none, gated))
    (stored : db.queues.get? c.args.queue = some q) (going : q.pausedAt.isSome = false) :
    c.granted env db = Taskq.granted env c.args.queue q c.batch gated := by
  rw [(breakerGate_unseen gate).granted (breakerGate_tat gate)]
  simp only [granted, (breakerGate_passes gate).mp rfl, stored, going, if_true, Bool.false_eq_true,
    if_false]

theorem serves_none (env : Env) (c : ClaimCall) (db : Db) : c.serves env db 0 = [] := by
  simp [serves, served]

/-- A claim starts exactly the jobs of its lineup that its grant serves. -/
theorem Outcome.serves (outcome : c.Outcome env db answer db') :
    answer.jobs.map (·.jobId) = (c.serves env db (c.granted env db)).map Prod.fst := by
  cases outcome with
  | held gate =>
    have held : breakerPasses env c.args.queue db = false :=
      eq_false_of_ne_true (mt (breakerGate_passes gate).mpr (by simp))
    have none' : c.granted env db = 0 := by simp [granted, held]
    rw [none', serves_none]
    unfold throttledOrEmpty
    split_ifs <;> rfl
  | unknown gate missing =>
    have none' : c.granted env db = 0 := by simp [granted, missing]
    rw [none', serves_none]
    rfl
  | paused gate stored stopped =>
    have none' : c.granted env db = 0 := by simp [granted, stored, stopped]
    rw [none', serves_none]
    rfl
  | throttled gate stored going full =>
    rw [granted_going gate stored going, ((queueGate_granted full).2 _ rfl).1, serves_none]
    simp only [queueGate] at full
    split at full
    · cases full
      unfold throttledOrEmpty
      split_ifs <;> rfl
    · split at full
      · cases full
      · obtain ⟨⟨grant, consumed⟩, -, full⟩ := seq_eq_ok.mp full
        split at full <;> cases full
        unfold throttledOrEmpty
        split_ifs <;> rfl
  | served gate stored going grant some' ids flows =>
    rw [granted_going gate stored going, ← ((queueGate_granted grant).1 _ rfl).1]
    exact ids
  | empty gate stored going grant nobody aside flows reap =>
    rw [granted_going gate stored going, ← ((queueGate_granted grant).1 _ rfl).1, nobody]
    rfl

/-- The jobs that a claim starts wait in its queue, and they are no more than it is granted. -/
theorem Outcome.started (outcome : c.Outcome env db answer db') :
    answer.jobs.length ≤ (c.granted env db).toNat ∧
    ∀ id ∈ answer.jobs.map (·.jobId), ∃ job, db.jobs.get? id = some job ∧
      claimable env db.toCore c.args job.toJobRow = true := by
  have ids := outcome.serves
  refine ⟨?_, fun id member => ?_⟩
  · have same := congrArg List.length ids
    rw [List.length_map, List.length_map] at same
    rw [same]
    exact serve_length_le
  · rw [ids, List.mem_map] at member
    obtain ⟨⟨id, job⟩, served, rfl⟩ := member
    obtain ⟨stored, good⟩ := mem_lineup.mp (List.mem_of_mem_take (serve_sublist.subset served))
    simp only [eligible, Bool.and_eq_true] at good
    exact ⟨job, stored, good.1.1.1.1⟩

theorem granted_nonneg {rate : ℤ} (stored : db.queues.get? c.args.queue = some q)
    (rated : q.claimRatePerMinute = some rate) : 0 ≤ c.granted env db := by
  simp only [granted, stored]
  split_ifs
  · exact le_rfl
  · simp only [Taskq.granted, rated]
    exact le_max_left _ _
  · exact le_rfl

/-- A claim takes a token for every job that it is granted, whether it starts one or not. -/
theorem Outcome.charges (outcome : c.Outcome env db answer db')
    (stored : db.queues.get? c.args.queue = some q) {rate : ℤ} (rated : q.claimRatePerMinute = some rate) :
    Charges env (bucketLimit env c.args.queue q rate db) (c.granted env db) (db.tat c.args.queue)
      (db'.tat c.args.queue) := by
  have free {db' : Db} (kept : db'.tat = db.tat) (none' : c.granted env db = 0) :
      Charges env (bucketLimit env c.args.queue q rate db) (c.granted env db) (db.tat c.args.queue)
        (db'.tat c.args.queue) := by
    rw [kept, none']
    exact .none_taken _ _ _
  have taken {gated granted db' : Db} {n : ℤ} (gate : breakerGate env c.args.queue db = .ok (none, gated))
      (going : q.pausedAt.isSome = false)
      (grant : queueGate env c.args q c.batch gated = .ok (.ok n, granted)) (kept : db'.tat = granted.tat) :
      Charges env (bucketLimit env c.args.queue q rate db) (c.granted env db) (db.tat c.args.queue)
        (db'.tat c.args.queue) := by
    obtain ⟨same, charges⟩ := (queueGate_granted grant).1 n rfl
    rw [granted_going gate stored going, ← same, kept, ← (breakerGate_unseen gate).bucketLimit,
      ← breakerGate_tat gate]
    exact charges rate rated
  cases outcome with
  | held gate =>
    have held : breakerPasses env c.args.queue db = false :=
      eq_false_of_ne_true (mt (breakerGate_passes gate).mpr (by simp))
    exact free (breakerGate_tat gate) (by simp [granted, held])
  | unknown gate missing => exact absurd (stored.symm.trans missing) (by simp)
  | paused gate stored' stopped =>
    cases stored.symm.trans stored'
    exact free (breakerGate_tat gate) (by simp [granted, stored, stopped])
  | throttled gate stored' going full =>
    cases stored.symm.trans stored'
    obtain ⟨dry, kept⟩ := (queueGate_granted full).2 _ rfl
    exact free (kept.trans (breakerGate_tat gate)) ((granted_going gate stored going).trans dry)
  | served gate stored' going grant some' ids flows =>
    cases stored.symm.trans stored'
    exact taken gate going grant (by unfold Db.tat; rw [flows])
  | empty gate stored' going grant nobody aside flows reap =>
    cases stored.symm.trans stored'
    refine taken gate going grant ?_
    have reaped : db'.tat = _ := congrArg Prod.fst (reapExpired_path reap).logs.keeps.1
    refine reaped.trans (funext fun queue => ?_)
    simp only [Db.buckets, Db.tat, flows]

end ClaimCall

end Answer

end Taskq
