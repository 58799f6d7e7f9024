import Taskq.Model.Housekeeping

/-! Claiming: the breaker gate, the running cap, the token buckets of the queue and of the flow keys,
and the loop that starts attempts. -/
namespace Taskq
open Relational

inductive ClaimState where
  | claimed | empty | unavailable | throttled | paused | unknownQueue
  deriving DecidableEq, Repr

/-- `taskq.claimed_job`. -/
structure ClaimedJob where
  jobId : Uuid
  queue : String
  jobType : String
  priority : ℤ
  payload : Jsonb
  headers : Option Jsonb
  progress : Option Jsonb
  attemptId : Uuid
  attemptNumber : ℤ
  failureCount : ℤ
  maxAttempts : ℤ
  leaseExpiresAt : Time
  workflowId : Option Uuid
  stepKey : Option String
  leaseSeconds : ℤ
  continuationPolicyHash : Option String
  deriving DecidableEq, Repr

/-- `taskq.claim_batch`. -/
structure ClaimBatch where
  state : ClaimState
  jobs : List ClaimedJob
  retryAfterSeconds : Option ℤ
  deriving DecidableEq, Repr

structure ClaimArgs where
  queue : String
  workerId : Option String
  batch : Option ℤ
  jobTypes : Option (List String)
  leaseSeconds : Option ℤ
  affinityKey : Option String
  jobId : Option Uuid
  acceptThrottled : Bool

/-- `_throttled_or_empty`. -/
def throttledOrEmpty (accept : Bool) (retryAfter : Option ℤ) : ClaimBatch :=
  if accept then ⟨.throttled, [], some (max 1 (retryAfter.getD 1))⟩ else ⟨.empty, [], none⟩

section Flow

/-- `60.0 / rate`: the seconds between two tokens. -/
def emissionInterval (site : Site) (rate : ℤ) : ℚ := site.arithmetic.divide 1 60 rate

/-- The digits that the emission interval of a rate has after the point. -/
def emissionScale (rate : ℤ) : ℕ := quotientScale 1 60 rate

/-- `_flow_scale`: the fraction of its capacity that a ramping queue has. -/
def flowScale (env : Env) (db : Db) (queue : String) (ramp : Option ℤ) : ℚ :=
  match ramp, (db.queueFlow.get? queue).bind (·.rampStartedAt) with
  | some ramp, some started =>
    let elapsed : ℚ := ((env.now - started : ℤ) : ℚ) / 1000000
    if (ramp : ℚ) ≤ elapsed then 1 else max (env.arithmetic.divide 6 elapsed ramp) (2 / 100)
  | _, _ => 1

/-- The grant of a queue bucket, or the seconds to wait for the next token. -/
inductive Grant where
  | tokens (n : ℤ)
  | wait (seconds : ℤ)
  deriving DecidableEq, Repr

/-- The theoretical arrival time of an idle bucket is now. -/
def clampedTat (env : Env) (tat : Option ℚ) : ℚ := max (tat.getD env.now) env.now

/-- `_flow_consume_queue`: take up to `want` tokens of the queue's bucket. -/
def flowConsumeQueue (env : Env) (queue : String) (rate burst : ℤ) (scale : ℚ) (want : ℤ) (db : Db) :
    Call (Grant × Db) := do
  let effective := max 1 ⌊rate * scale⌋
  let t := emissionInterval env.toSite effective
  let bw := t * (max 1 burst : ℤ)
  let flow := (db.queueFlow.get? queue).getD (.fresh env.now)
  let db := db.putFlow queue flow
  let tat := clampedTat env flow.tat
  let available ← int4 ⌊env.arithmetic.divide (max 6 (emissionScale effective))
    ((env.now - tat) / 1000000 + bw) t⌋
  let grant := min want available
  if grant ≤ 0 then do
    let wait ← int4 (max 1 ⌈(tat - env.now) / 1000000 - bw + t⌉)
    .ok (.wait wait, db)
  else
    .ok (.tokens grant, db.putFlow queue { flow with
      tat := some (tat + env.arithmetic.interval (grant * t)), updatedAt := env.now })

/-- `flow_key_admit`: take one token of a key's bucket. Unknown keys are unlimited; a contended or
dry key is refused. -/
def flowKeyAdmit (env : Env) (key : String) (db : Db) : Bool × Db :=
  match db.flowLimits.get? key with
  | none => (true, db)
  | some limit =>
    if ¬env.tryLock ("taskq.fk:" ++ key) then (false, db)
    else
      let t := emissionInterval env.toSite limit.ratePerMinute
      let bw := t * (limit.burst.getD limit.ratePerMinute)
      let stored := (db.flowState.get? key).getD none
      let tat := clampedTat env stored
      if bw - t < (tat - env.now) / 1000000 then
        (false, { db with flowState := db.flowState.put key stored })
      else
        (true, { db with flowState := db.flowState.put key (some (tat + env.arithmetic.interval t)) })

end Flow

section Breaker

/-- `_breaker_gate`: no value to proceed, or the seconds after which to claim again. -/
def breakerGate (env : Env) (queue : String) (db : Db) : Call (Option ℤ × Db) :=
  match db.queueFlow.get? queue with
  | none => .ok (none, db)
  | some flow =>
    if flow.breakerFailureThreshold.isNone ∨ flow.breakerState = .closed then .ok (none, db)
    else
      let cooldown := flow.breakerCooldownSeconds.getD 30
      -- the breaker is not closed, so it was tripped; without the instant no comparison holds
      match flow.breakerState, flow.breakerTrippedAt with
      | .opened, some tripped =>
        let remaining := tripped + seconds cooldown - env.now
        if 0 < remaining then do
          let wait ← int4 ⌈(remaining : ℚ) / 1000000⌉
          .ok (some (max 1 wait), db)
        else .ok (none, db.putFlow queue { flow with breakerState := .halfOpen, updatedAt := env.now })
      | .halfOpen, some tripped =>
        if tripped + seconds (2 * cooldown) < env.now then
          .ok (some 1, db.putFlow queue { flow with
            breakerState := .opened, breakerTrippedAt := some env.now, breakerProbeSuccesses := 0,
            breakerOpenedTotal := flow.breakerOpenedTotal + 1, updatedAt := env.now })
        else .ok (some 1, db)
      | _, _ => .ok (some 1, db)

end Breaker

section Candidates

/-- Running jobs that carry a concurrency key, in all queues. -/
def runningWithKey (core : Core) (key : String) : ℕ :=
  core.jobs.count fun _ j => j.status = .running ∧ j.concurrencyKey = some key

def concurrencyCap (db : Db) (key : String) : ℤ := (db.concurrencyLimits.get? key).getD 1

/-- The key is in the saturated set, which is computed once per claim from the running jobs. -/
def saturatedKey (db : Db) (key : String) : Bool :=
  0 < runningWithKey db.toCore key && concurrencyCap db key ≤ runningWithKey db.toCore key

/-- The job's workflow was asked to cancel. -/
def workflowCancelled (core : Core) (job : JobRow) : Bool :=
  (job.workflowId.bind core.workflows.get?).any (·.cancelRequestedAt.isSome)

/-- The filter that all candidate scans share. -/
def claimable (env : Env) (core : Core) (args : ClaimArgs) (job : JobRow) : Bool :=
  job.queue = args.queue && job.status = .queued && job.scheduledAt ≤ env.now &&
  job.cancelRequestedAt.isNone && job.expiresAt.all (env.now < ·) &&
  !workflowCancelled core job && args.jobTypes.all (·.contains job.jobType)

/-- What one claim call remembers between its scans. -/
structure Scan where
  skip : List Uuid
  affinity : Option String

/-- The row is not skipped and its concurrency key was not saturated at the start. -/
def Scan.admits (scan : Scan) (saturated : String → Bool) (id : Uuid) (job : JobRow) : Bool :=
  !scan.skip.contains id && !job.concurrencyKey.any saturated

/-- Whole aging periods since a job became ready. -/
def agedPeriods (env : Env) (aging : ℤ) (job : JobRow) : ℤ :=
  (env.now - job.scheduledAt) / seconds aging

/-- The priority under which a candidate is ordered. -/
def effectivePriority (env : Env) (aging : Option ℤ) (job : JobRow) : ℤ :=
  match aging with
  | none => job.priority
  | some aging => job.priority - min 1000 (agedPeriods env aging job)

def claimLe (rank : JobRow → ℤ) (a b : Uuid × Job) : Bool :=
  rank a.2.toJobRow < rank b.2.toJobRow ||
  (rank a.2.toJobRow = rank b.2.toJobRow && (a.2.scheduledAt < b.2.scheduledAt ||
    (a.2.scheduledAt = b.2.scheduledAt && a.1 ≤ b.1)))

/-- The first unlocked candidate in claim order. With aging the order is computed for every row
that the filter selects, as an `integer`. -/
def firstCandidate (env : Env) (aging : Option ℤ) (p : Uuid → JobRow → Bool) (core : Core) :
    Call (Option (Uuid × Job)) := do
  let rows := core.jobs.select fun id j => p id j.toJobRow
  ensure (aging.all fun a => rows.all fun r => agedPeriods env a r.2.toJobRow ≤ 2147483647)
    (outOfRange "integer")
  let ordered := rows.insertionSort fun a b => claimLe (effectivePriority env aging) a b
  .ok (ordered.find? fun r => !env.locked r.1)

/-- The candidate scans of the overload without policies: the affinity preference, then the rest. -/
def pickOrdinary (env : Env) (args : ClaimArgs) (aging : Option ℤ) (saturated : String → Bool)
    (scan : Scan) (core : Core) : Call (Option (Uuid × Job) × Scan) := do
  let base := fun id (j : JobRow) => claimable env core args j && j.continuationPolicyHash.isNone &&
    scan.admits saturated id j
  let preferred ←
    (if scan.affinity.isSome ∧ args.jobId.isNone then
      firstCandidate env aging (fun id j => base id j && j.affinityKey = scan.affinity) core
    else .ok none)
  match preferred with
  | some job => .ok (some job, scan)
  | none => do
    let job ← firstCandidate env aging (fun id j => base id j && args.jobId.all (· = id)) core
    .ok (job, if args.jobId.isNone then { scan with affinity := none } else scan)

/-- The first rows of each policy's own order, at most a batch of each, merged. -/
def frontier (env : Env) (policies : List (Option String)) (batch : ℤ) (p : Uuid → JobRow → Bool)
    (core : Core) : Option (Uuid × Job) :=
  let le := claimLe fun j => j.priority
  ((policies.flatMap fun hash =>
    (core.jobs.selectBy (fun id j => p id j.toJobRow ∧ j.continuationPolicyHash = hash ∧
      ¬env.locked id) le).take batch.toNat).insertionSort fun a b => le a b).head?

/-- The candidate scans of the policy-aware overload. -/
def pickWithPolicies (env : Env) (args : ClaimArgs) (hashes : List String) (batch : ℤ)
    (saturated : String → Bool) (scan : Scan) (core : Core) : Option (Uuid × Job) × Scan :=
  match args.jobId with
  | some id =>
    ((core.jobs.get? id).bind fun j =>
      if claimable env core args j.toJobRow ∧ j.continuationPolicyHash.all hashes.contains ∧
        ¬env.locked id then some (id, j) else none, scan)
  | none =>
    let policies := none :: hashes.map some
    let base := fun id (j : JobRow) => claimable env core args j && scan.admits saturated id j
    let preferred := if scan.affinity.isSome then
      frontier env policies batch (fun id j => base id j && j.affinityKey = scan.affinity) core
      else none
    match preferred with
    | some job => (some job, scan)
    | none => (frontier env policies batch base core, { scan with affinity := none })

end Candidates

section Loop

/-- The concurrency key and the flow key of a candidate let it start; a refusal may leave a bucket
row behind. -/
def admitCandidate (env : Env) (job : JobRow) (db : Db) : Bool × Db :=
  let keyFree := job.concurrencyKey.all fun key =>
    env.tryLock ("taskq.ck:" ++ key) && runningWithKey db.toCore key < concurrencyCap db key
  if ¬keyFree then (false, db)
  else
    match job.flowKey with
    | none => (true, db)
    | some key => flowKeyAdmit env key db

/-- Start an attempt: the job row, the ledger row and the event. -/
def startAttempt (env : Env) (args : ClaimArgs) (id : Uuid) (job : Job) (db : Db) :
    Call (ClaimedJob × Db) := do
  let (attempt, db) := newUuid db
  let lease := args.leaseSeconds.getD job.leaseSeconds
  let expires := env.now + seconds lease
  let db ← writeJob env id job
    { job.toJobRow with
        status := .running, workerId := args.workerId, currentAttemptId := some attempt
        attemptCount := job.attemptCount + 1, leaseExpiresAt := some expires
        startedAt := job.startedAt <|> some env.now, updatedAt := env.now } db
  let db ← insertAttempt attempt ⟨id, args.workerId.getD "", .running, none, env.now, lease, none,
    none, none⟩ db
  let db ← emitEvent env id (some attempt) "claimed" args.workerId none
    (some (.build [("attempt", .ofInt (job.attemptCount + 1))])) db
  .ok (⟨id, job.queue, job.jobType, job.priority, job.payload, job.headers, job.progress, attempt,
    job.attemptCount + 1, job.failureCount, job.maxAttempts, expires, job.workflowId, job.stepKey,
    lease, job.continuationPolicyHash⟩, db)

/-- The claim loop: scans that are left, and jobs that are still wanted. -/
def claimLoop (env : Env) (args : ClaimArgs)
    (pick : Scan → Core → Call (Option (Uuid × Job) × Scan)) :
    ℕ → ℤ → Scan → Db → Call (List ClaimedJob × Db)
  | 0, _, _, db => .ok ([], db)
  | scans+1, wanted, scan, db =>
    if wanted ≤ 0 then .ok ([], db)
    else do
      let (candidate, scan) ← pick scan db.toCore
      match candidate with
      | none => .ok ([], db)
      | some (id, job) =>
        let (admitted, db) := admitCandidate env job.toJobRow db
        if admitted then do
          let (claimed, db) ← startAttempt env args id job db
          let (rest, db) ← claimLoop env args pick scans (wanted - 1) scan db
          .ok (claimed :: rest, db)
        else claimLoop env args pick scans wanted { scan with skip := scan.skip ++ [id] } db

/-- The queue's running cap and token bucket: a smaller batch, or a throttled answer. -/
def queueGate (env : Env) (args : ClaimArgs) (q : Queue) (batch : ℤ) (db : Db) :
    Call (Except ClaimBatch ℤ × Db) := do
  let scale := flowScale env db args.queue q.rampSeconds
  let running := ((db.queueCounters.get? args.queue).map (·.running)).getD 0
  let cap := q.maxRunning.map fun m => max 1 ⌊m * scale⌋
  if cap.any (· ≤ running) then
    .ok (.error (throttledOrEmpty args.acceptThrottled (some 1)), db)
  else
    let batch := (cap.map fun c => min batch (c - running)).getD batch
    match q.claimRatePerMinute with
    | none => .ok (.ok batch, db)
    | some rate => do
      let (grant, db) ← flowConsumeQueue env args.queue rate (q.claimBurst.getD rate) scale batch db
      match grant with
      | .wait n => .ok (.error (throttledOrEmpty args.acceptThrottled (some n)), db)
      | .tokens n => .ok (.ok (min batch n), db)

/-- The loop with its scan budget, and the answer; an empty claim reaps a few expired leases. -/
def runClaim (env : Env) (args : ClaimArgs)
    (pick : Scan → Core → Call (Option (Uuid × Job) × Scan)) (batch : ℤ) (db : Db) :
    Call (ClaimBatch × Db) := do
  let (jobs, db) ← claimLoop env args pick (batch + 20).toNat batch ⟨[], args.affinityKey⟩ db
  if jobs.isEmpty then do
    let (_, db) ← reapExpired env (some 5) db
    .ok (⟨if args.jobId.isSome then .unavailable else .empty, [], none⟩, db)
  else .ok (⟨.claimed, jobs, none⟩, db)

/-- What both claim bodies do after validation. -/
def claimBody (env : Env) (args : ClaimArgs) (db : Db)
    (pick : ℤ → Db → Scan → Core → Call (Option (Uuid × Job) × Scan)) : Call (ClaimBatch × Db) :=
  let batch := if args.jobId.isSome then 1 else args.batch.getD 1
  match db.queues.get? args.queue with
  | none => .ok (⟨.unknownQueue, [], none⟩, db)
  | some q =>
    if q.pausedAt.isSome then .ok (⟨.paused, [], none⟩, db)
    else do
      let (gate, db) ← queueGate env args q batch db
      match gate with
      | .error throttled => .ok (throttled, db)
      | .ok batch => runClaim env args (pick batch db) batch db

/-- `_claim_jobs_unattested`, the overload without policies. -/
def claimJobsUnattested (env : Env) (args : ClaimArgs) (db : Db) : Call (ClaimBatch × Db) := do
  ensure (workerOk args.workerId) workerRequired
  ensure (args.batch.any fun n => 1 ≤ n ∧ n ≤ 50) (tq422 "claim batch must be 1..50")
  ensure (args.leaseSeconds.all fun n => 15 ≤ n ∧ n ≤ 86400)
    (tq422 "lease override must be 15..86400 seconds")
  ensure (args.jobTypes.all fun ts => 1 ≤ ts.length ∧ ts.length ≤ 20)
    (tq422 "job type filter must have 1..20 entries")
  ensure (args.affinityKey.all (·.length ≤ 120)) (tq422 "affinity_key exceeds 120 chars")
  claimBody env args db fun _ db =>
    pickOrdinary env args ((db.queueFlow.get? args.queue).bind (·.priorityAgingSeconds))
      (saturatedKey db)

/-- `_claim_jobs_unattested`, the policy-aware overload; it does not read the queue's aging. -/
def claimJobsWithPoliciesUnattested (env : Env) (args : ClaimArgs) (hashes : List String) (db : Db) :
    Call (ClaimBatch × Db) := do
  ensure (workerOk args.workerId ∧ args.batch.any fun n => 1 ≤ n ∧ n ≤ 50)
    (tq422 "invalid worker or claim batch")
  ensure (args.leaseSeconds.all (fun n => 15 ≤ n ∧ n ≤ 86400) ∧
    args.jobTypes.all (fun ts => 1 ≤ ts.length ∧ ts.length ≤ 20) ∧
    args.affinityKey.all (·.length ≤ 120)) (tq422 "invalid claim filter")
  ensure (hashes.length ≤ 32 ∧ hashes.Nodup ∧ hashes.all isSha256)
    (tq422 "supported continuation policies must be 0..32 distinct hashes")
  claimBody env args db fun batch db scan core =>
    .ok (pickWithPolicies env args hashes batch (saturatedKey db) scan core)

/-- What both `claim_jobs` wrappers do: attestation, the breaker gate, then the claim body. -/
def gatedClaim (env : Env) (args : ClaimArgs) (body : Db → Call (ClaimBatch × Db)) (db : Db) :
    Call (ClaimBatch × Db) := do
  ensure env.attested attestationRequired
  let (retry, db) ← breakerGate env args.queue db
  match retry with
  | some n => .ok (throttledOrEmpty args.acceptThrottled (some n), db)
  | none => body db

/-- `claim_jobs`. -/
def claimJobs (env : Env) (args : ClaimArgs) (db : Db) : Call (ClaimBatch × Db) :=
  gatedClaim env args (claimJobsUnattested env args) db

/-- `claim_jobs` for a worker that supports continuation policies. -/
def claimJobsWithPolicies (env : Env) (args : ClaimArgs) (hashes : List String) (db : Db) :
    Call (ClaimBatch × Db) :=
  gatedClaim env args (claimJobsWithPoliciesUnattested env args hashes) db

end Loop

end Taskq
