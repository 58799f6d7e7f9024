import Taskq.Claiming.Room

/-! A claim call from its arguments to its answer: the gates first, then the jobs that it serves. -/
namespace Taskq
open Relational

/-- A `claim_jobs` call of either overload; the policy-aware one names the hashes it supports. -/
structure ClaimCall where
  args : ClaimArgs
  hashes : Option (List String)

namespace ClaimCall

def run (env : Env) (c : ClaimCall) (db : Db) : Call (ClaimBatch × Db) :=
  match c.hashes with
  | none => claimJobs env c.args db
  | some hashes => claimJobsWithPolicies env c.args hashes db

def command (c : ClaimCall) : Command :=
  match c.hashes with
  | none => .claimJobs c.args
  | some hashes => .claimJobsWithPolicies c.args hashes

theorem exec (env : Env) (c : ClaimCall) (db : Db) :
    c.command.exec env db = (c.run env db).map (·.2) := by
  obtain ⟨_, _ | _⟩ := c <;> rfl

end ClaimCall

/-- The claim that a call makes, if it is one. -/
def Command.claim : Command → Option ClaimCall
  | .claimJobs a => some ⟨a, none⟩
  | .claimJobsWithPolicies a hashes => some ⟨a, some hashes⟩
  | _ => none

namespace ClaimCall

theorem of_claim {c : ClaimCall} {command : Command} (claims : command.claim = some c) : command = c.command := by
  unfold Command.claim at claims
  split at claims <;> cases claims <;> rfl

/-- The jobs asked for: one, when the call names a job. -/
def batch (c : ClaimCall) : ℤ := if c.args.jobId.isSome then 1 else c.args.batch.getD 1

def prefers (c : ClaimCall) (env : Env) (db : Db) : Preference :=
  match c.hashes with
  | none => ordinary env ((db.queueFlow.get? c.args.queue).bind (·.priorityAgingSeconds))
  | some hashes => policied hashes

/-- The candidates of the call, in the order in which it meets them. -/
def lineup (c : ClaimCall) (env : Env) (db : Db) : List (Uuid × Job) :=
  Taskq.lineup env c.args (c.prefers env db) (saturatedKey db) ⟨[], c.args.affinityKey⟩ db.toCore

/-- The jobs that the call serves when its gates grant it `n`. -/
def serves (c : ClaimCall) (env : Env) (db : Db) (n : ℤ) : List (Uuid × Job) :=
  served (db.room env) (n + 20).toNat n (c.lineup env db)

end ClaimCall

section Targeted

variable {env : Env} {args : ClaimArgs} {hashes : List String} {batch : ℤ} {saturated : String → Bool}
  {scan : Scan} {scans : ℕ} {jobs : List ClaimedJob} {db db' : Db} {id : Uuid}

/-- The named job, when it may be claimed under these policies. -/
def target (env : Env) (args : ClaimArgs) (hashes : List String) (core : Core) (id : Uuid) : Option Job :=
  (core.jobs.get? id).filter fun j => claimable env core args j.toJobRow &&
    j.continuationPolicyHash.all hashes.contains && !env.locked id

theorem pickWithPolicies_target (named : args.jobId = some id) (core : Core) :
    pickWithPolicies env args hashes batch saturated scan core =
      ((target env args hashes core id).map fun j => (id, j), scan) := by
  have found : ((core.jobs.get? id).bind fun j =>
      if claimable env core args j.toJobRow ∧ j.continuationPolicyHash.all hashes.contains ∧
        ¬env.locked id then some (id, j) else none) = (target env args hashes core id).map fun j => (id, j) := by
    unfold target
    cases core.jobs.get? id with
    | none => rfl
    | some j =>
      simp only [Option.bind_some, Option.filter_some]
      split_ifs <;> simp_all
  simp only [pickWithPolicies, named, found]

/-- The overload with policies tries a named job again and again, to the same end. -/
theorem claimLoop_target (named : args.jobId = some id) (rated : db.Rated)
    (run : claimLoop env args (fun scan core =>
      .ok (pickWithPolicies env args hashes batch saturated scan core)) scans 1 scan db =
        .ok (jobs, db')) :
    (jobs.map (·.jobId) = if 0 < scans ∧ (target env args hashes db.toCore id).any
      (fun j => (db.room env).serves (id, j)) then [id] else []) ∧ db'.queueFlow = db.queueFlow := by
  induction scans generalizing scan db jobs with
  | zero =>
    cases run
    exact ⟨by simp, rfl⟩
  | succ scans ih =>
    unfold claimLoop at run
    rw [if_neg (by decide)] at run
    obtain ⟨⟨candidate, scan'⟩, picked, run⟩ := seq_eq_ok.mp run
    rw [pickWithPolicies_target named] at picked
    cases found : target env args hashes db.toCore id with
    | none =>
      rw [found] at picked
      cases picked
      cases run
      exact ⟨by simp, rfl⟩
    | some job =>
      rw [found] at picked
      cases picked
      have stored : db.jobs.get? id = some job := (Option.filter_eq_some_iff.mp found).1
      obtain ⟨core, settings, -⟩ := admitCandidate_aside env job.toJobRow db
      have limits : (admitCandidate env job.toJobRow db).2.flowLimits = db.flowLimits :=
        congrArg (fun s => s.2.2.2.1) settings
      have flows := admitCandidate_queueFlow env job.toJobRow db
      obtain ⟨serves, -, -⟩ := admitCandidate_serves env rated id job
      rw [Option.any_some, ← serves]
      dsimp only [Option.map_some] at run
      split at run
      · rename_i admitted
        simp only [seq_eq_ok] at run
        obtain ⟨⟨claimed, started⟩, start, ⟨others, last⟩, loop, finish⟩ := run
        cases finish
        obtain ⟨own, row, _, _, _, _, -, -, frame⟩ := startAttempt_frame start
        have alone : others = [] ∧ last = started := by
          cases scans <;> simpa [claimLoop, eq_comm] using loop
        rw [if_pos ⟨Nat.succ_pos _, admitted⟩, alone.1, alone.2, frame]
        exact ⟨by simp [own], flows⟩
      · rename_i refused
        have idle := eq_false_of_ne_true refused
        obtain ⟨ids, kept⟩ := ih (rated.congr limits) run
        rw [core, found, admitCandidate_refuses rated idle, Option.any_some, ← serves] at ids
        rw [if_neg fun both => refused both.2]
        rw [if_neg fun both => refused both.2] at ids
        exact ⟨ids, kept.trans flows⟩

/-- A job whose key was saturated at the start finds no free slot. -/
theorem Room.full (env : Env) (db : Db) {job : Job} (full : job.concurrencyKey.any (saturatedKey db) = true) :
    (db.room env).serves (id, job) = false := by
  obtain ⟨key, own, full⟩ := (Option.any_eq_true _ _).mp full
  simp only [saturatedKey, Bool.and_eq_true, decide_eq_true_eq] at full
  have none' : ¬0 < (db.room env).slots key := by
    simp only [Db.room]
    split_ifs <;> omega
  simp [Room.serves, own, none']

/-- The lineup of a claim that names a job. -/
theorem lineup_target (named : args.jobId = some id) (core : Core) (affinity : Option String) :
    lineup env args (policied hashes) saturated ⟨[], affinity⟩ core =
      ((target env args hashes core id).filter fun j => !j.concurrencyKey.any saturated).toList.map
        fun j => (id, j) := by
  have all : lineup env args (policied hashes) saturated ⟨[], affinity⟩ core =
      lined env args (policied hashes) saturated ⟨[], affinity⟩ core fun _ => true := by
    unfold lineup
    split <;> simp_all
  rw [all]
  refine (Table.eq_selectBy (claimLe_order _) ?_ ?_ fun other j => ?_).symm
  · cases Option.filter _ (target env args hashes core id) <;> simp
  · cases Option.filter _ (target env args hashes core id) <;> simp
  · simp only [List.mem_map, Option.mem_toList, Option.filter_eq_some_iff, target,
      Prod.mk.injEq, eligible, named, Scan.admits, policied, Option.all_some, Bool.and_eq_true,
      decide_eq_true_eq]
    constructor
    · rintro ⟨_, ⟨⟨stored, good⟩, fresh⟩, rfl, rfl⟩
      simp_all
    · rintro ⟨stored, ⟨⟨⟨⟨good, known⟩, fresh⟩, rfl⟩, free⟩, -⟩
      exact ⟨j, ⟨⟨stored, by simp_all⟩, by simp_all⟩, rfl, rfl⟩

/-- The overload with policies serves a named job as it would serve the lineup. -/
theorem claimLoop_target_served (named : args.jobId = some id) (rated : db.Rated)
    {affinity : Option String}
    (run : claimLoop env args (fun scan core =>
      .ok (pickWithPolicies env args hashes batch (saturatedKey db) scan core)) 21 1 scan db =
        .ok (jobs, db')) :
    jobs.map (·.jobId) = (served (db.room env) 21 1
      (lineup env args (policied hashes) (saturatedKey db) ⟨[], affinity⟩ db.toCore)).map Prod.fst ∧
    db'.queueFlow = db.queueFlow := by
  obtain ⟨ids, kept⟩ := claimLoop_target named rated run
  refine ⟨ids.trans ?_, kept⟩
  rw [lineup_target named]
  cases target env args hashes db.toCore id with
  | none => simp [served]
  | some job =>
    rw [Option.filter_some]
    split_ifs with serves fresh fresh
    · have here : (db.room env).serves (id, job) = true := by simpa using serves
      simp [served, serve, here]
    · have full : job.concurrencyKey.any (saturatedKey db) = true := by simpa using fresh
      simp [Room.full env db full] at serves
    · have here : (db.room env).serves (id, job) = false := by simpa using serves
      simp [served, serve, here]
    · simp [served]

end Targeted

section Outcome

variable {env : Env} {c : ClaimCall} {answer : ClaimBatch} {db gated db' : Db}

/-- What the gates of a claim leave alone, as far as its candidates can tell. -/
structure Unseen (queue : String) (db db' : Db) : Prop where
  core : db'.toCore = db.toCore
  settings : db'.settings = db.settings
  counters : db'.queueCounters = db.queueCounters
  keys : db'.flowState = db.flowState
  aging : (db'.queueFlow.get? queue).bind (·.priorityAgingSeconds) =
    (db.queueFlow.get? queue).bind (·.priorityAgingSeconds)
  ramp : (db'.queueFlow.get? queue).bind (·.rampStartedAt) =
    (db.queueFlow.get? queue).bind (·.rampStartedAt)

namespace Unseen

variable {queue : String}

theorem refl (db : Db) : Unseen queue db db := ⟨rfl, rfl, rfl, rfl, rfl, rfl⟩

theorem trans {mid : Db} (first : Unseen queue db mid) (second : Unseen queue mid db') :
    Unseen queue db db' :=
  ⟨second.core.trans first.core, second.settings.trans first.settings,
    second.counters.trans first.counters, second.keys.trans first.keys, second.aging.trans first.aging,
    second.ramp.trans first.ramp⟩

/-- The queue's own flow row is written, without its aging and its ramp. -/
theorem putFlow {flow : QueueFlow} (aging : flow.priorityAgingSeconds =
    (db.queueFlow.get? queue).bind (·.priorityAgingSeconds)) (ramp : flow.rampStartedAt =
    (db.queueFlow.get? queue).bind (·.rampStartedAt)) : Unseen queue db (db.putFlow queue flow) :=
  ⟨rfl, rfl, rfl, rfl, by simp [Db.putFlow, aging], by simp [Db.putFlow, ramp]⟩

theorem queues (unseen : Unseen queue db db') : db'.queues = db.queues :=
  congrArg (fun s => s.2.1) unseen.settings

theorem room (unseen : Unseen queue db db') (env : Env) : db'.room env = db.room env := by
  have limits : db'.concurrencyLimits = db.concurrencyLimits := congrArg (fun s => s.2.2.1) unseen.settings
  have rates : db'.flowLimits = db.flowLimits := congrArg (fun s => s.2.2.2.1) unseen.settings
  simp only [Db.room, concurrencyCap, limits, rates, unseen.core, unseen.keys]

theorem rated (unseen : Unseen queue db db') (rated : db.Rated) : db'.Rated :=
  rated.congr (congrArg (fun s => s.2.2.2.1) unseen.settings)

theorem lineup (unseen : Unseen c.args.queue db db') (env : Env) : c.lineup env db' = c.lineup env db := by
  have limits : db'.concurrencyLimits = db.concurrencyLimits := congrArg (fun s => s.2.2.1) unseen.settings
  have caps : concurrencyCap db' = concurrencyCap db := by
    funext key
    simp only [concurrencyCap, limits]
  have saturated : saturatedKey db' = saturatedKey db := by
    funext key
    unfold saturatedKey
    rw [caps, unseen.core]
  simp only [ClaimCall.lineup, ClaimCall.prefers, saturated, unseen.core, unseen.aging]

theorem serves (unseen : Unseen c.args.queue db db') (env : Env) (n : ℤ) :
    c.serves env db' n = c.serves env db n := by
  simp only [ClaimCall.serves, unseen.lineup env, unseen.room env]

end Unseen

theorem breakerGate_unseen {queue : String} {wait : Option ℤ}
    (run : breakerGate env queue db = .ok (wait, db')) : Unseen queue db db' := by
  unfold breakerGate at run
  split at run
  · cases run
    exact .refl _
  · rename_i flow found
    split at run
    · cases run
      exact .refl _
    · simp only at run
      split at run
      · split at run
        · obtain ⟨_, -, finish⟩ := seq_eq_ok.mp run
          cases finish
          exact .refl _
        · cases run
          exact .putFlow (by simp [found]) (by simp [found])
      · split at run <;> cases run
        · exact .putFlow (by simp [found]) (by simp [found])
        · exact .refl _
      · cases run
        exact .refl _

theorem flowConsumeQueue_unseen {queue : String} {rate burst want : ℤ} {scale : ℚ} {grant : Grant}
    (run : flowConsumeQueue env queue rate burst scale want db = .ok (grant, db')) :
    Unseen queue db db' := by
  have aging : ((db.queueFlow.get? queue).getD (.fresh env.now)).priorityAgingSeconds =
      (db.queueFlow.get? queue).bind (·.priorityAgingSeconds) := by
    cases db.queueFlow.get? queue <;> rfl
  have ramp : ((db.queueFlow.get? queue).getD (.fresh env.now)).rampStartedAt =
      (db.queueFlow.get? queue).bind (·.rampStartedAt) := by
    cases db.queueFlow.get? queue <;> rfl
  simp only [flowConsumeQueue, seq_eq_ok] at run
  obtain ⟨available, -, run⟩ := run
  have first : Unseen queue db (db.putFlow queue ((db.queueFlow.get? queue).getD (.fresh env.now))) :=
    .putFlow aging ramp
  split at run
  · obtain ⟨_, -, finish⟩ := seq_eq_ok.mp run
    cases finish
    exact first
  · cases run
    exact first.trans (.putFlow (by simp [Db.putFlow]) (by simp [Db.putFlow]))

theorem queueGate_unseen {q : Queue} {batch : ℤ} {gate : Except ClaimBatch ℤ}
    (run : queueGate env c.args q batch db = .ok (gate, db')) : Unseen c.args.queue db db' := by
  simp only [queueGate] at run
  split at run
  · cases run
    exact .refl _
  · split at run
    · cases run
      exact .refl _
    · obtain ⟨⟨grant, consumed⟩, consume, run⟩ := seq_eq_ok.mp run
      split at run <;> cases run <;> exact flowConsumeQueue_unseen consume

theorem capped {cap : Option ℤ} {running batch : ℤ} (asked : 1 ≤ batch)
    (room : ¬cap.any (fun c => decide (c ≤ running)) = true) :
    1 ≤ (cap.map fun c => min batch (c - running)).getD batch ∧
      (cap.map fun c => min batch (c - running)).getD batch ≤ batch := by
  cases cap with
  | none => exact ⟨asked, le_rfl⟩
  | some c =>
    simp only [Option.any_some, decide_eq_true_eq, not_le] at room
    simp only [Option.map_some, Option.getD_some]
    omega

/-- The gates let a claim through for at least one job, and for no more than it asked for. -/
theorem queueGate_grant {q : Queue} {batch n : ℤ} (asked : 1 ≤ batch)
    (run : queueGate env c.args q batch db = .ok (.ok n, db')) : 1 ≤ n ∧ n ≤ batch := by
  simp only [queueGate] at run
  split at run
  · cases run
  · rename_i room
    have bounds := capped asked room
    split at run
    · cases run
      exact bounds
    · obtain ⟨⟨grant, consumed⟩, consume, run⟩ := seq_eq_ok.mp run
      simp only [flowConsumeQueue, seq_eq_ok] at consume
      obtain ⟨available, -, consume⟩ := consume
      split at consume
      · obtain ⟨_, -, finish⟩ := seq_eq_ok.mp consume
        cases finish
        cases run
      · rename_i more
        cases consume
        cases run
        omega

/-- How a claim call ends. -/
inductive ClaimCall.Outcome (env : Env) (c : ClaimCall) (db : Db) : ClaimBatch → Db → Prop
  | held {n : ℤ} {db' : Db} (gate : breakerGate env c.args.queue db = .ok (some n, db')) :
      Outcome env c db (throttledOrEmpty c.args.acceptThrottled (some n)) db'
  | unknown {gated : Db} (gate : breakerGate env c.args.queue db = .ok (none, gated))
      (missing : db.queues.get? c.args.queue = none) : Outcome env c db ⟨.unknownQueue, [], none⟩ gated
  | paused {q : Queue} {gated : Db} (gate : breakerGate env c.args.queue db = .ok (none, gated))
      (stored : db.queues.get? c.args.queue = some q) (stopped : q.pausedAt.isSome = true) :
      Outcome env c db ⟨.paused, [], none⟩ gated
  | throttled {q : Queue} {gated db' : Db} {answer : ClaimBatch}
      (gate : breakerGate env c.args.queue db = .ok (none, gated))
      (stored : db.queues.get? c.args.queue = some q) (going : q.pausedAt.isSome = false)
      (full : queueGate env c.args q c.batch gated = .ok (.error answer, db')) :
      Outcome env c db answer db'
  | served {q : Queue} {gated granted db' : Db} {n : ℤ} {jobs : List ClaimedJob}
      (gate : breakerGate env c.args.queue db = .ok (none, gated))
      (stored : db.queues.get? c.args.queue = some q) (going : q.pausedAt.isSome = false)
      (grant : queueGate env c.args q c.batch gated = .ok (.ok n, granted)) (some' : jobs ≠ [])
      (ids : jobs.map (·.jobId) = (c.serves env db n).map Prod.fst)
      (flows : db'.queueFlow = granted.queueFlow) : Outcome env c db ⟨.claimed, jobs, none⟩ db'
  | empty {q : Queue} {gated granted mid db' : Db} {n k : ℤ}
      (gate : breakerGate env c.args.queue db = .ok (none, gated))
      (stored : db.queues.get? c.args.queue = some q) (going : q.pausedAt.isSome = false)
      (grant : queueGate env c.args q c.batch gated = .ok (.ok n, granted))
      (nobody : c.serves env db n = []) (aside : Aside env granted mid)
      (flows : mid.queueFlow = granted.queueFlow) (reap : reapExpired env (some 5) mid = .ok (k, db')) :
      Outcome env c db ⟨if c.args.jobId.isSome then .unavailable else .empty, [], none⟩ db'

/-- The claim body ends as the outcome says when its loop serves the lineup. -/
theorem claimBody_outcome {pick : ℤ → Db → Scan → Core → Call (Option (Uuid × Job) × Scan)}
    (gate : breakerGate env c.args.queue db = .ok (none, gated)) (asked : 1 ≤ c.batch)
    (picks : ∀ batch db, Picks env c.args (pick batch db))
    (loops : ∀ {n granted jobs looped}, 1 ≤ n → n ≤ c.batch → Unseen c.args.queue db granted →
      claimLoop env c.args (pick n granted) (n + 20).toNat n ⟨[], c.args.affinityKey⟩ granted =
        .ok (jobs, looped) →
      jobs.map (·.jobId) = (c.serves env db n).map Prod.fst ∧ looped.queueFlow = granted.queueFlow)
    (run : claimBody env c.args gated pick = .ok (answer, db')) : c.Outcome env db answer db' := by
  have unseen := breakerGate_unseen gate
  simp only [claimBody] at run
  rw [unseen.queues] at run
  split at run
  · rename_i missing
    cases run
    exact .unknown gate missing
  · rename_i q stored
    split at run
    · rename_i stopped
      cases run
      exact .paused gate stored stopped
    · rename_i going
      have going := eq_false_of_ne_true going
      obtain ⟨⟨gate', granted⟩, grant, run⟩ := seq_eq_ok.mp run
      cases gate' with
      | error throttled =>
        cases run
        exact .throttled gate stored going grant
      | ok n =>
        obtain ⟨positive, bounded⟩ := queueGate_grant asked grant
        simp only [runClaim, seq_eq_ok] at run
        obtain ⟨⟨jobs, looped⟩, loop, run⟩ := run
        obtain ⟨ids, flows⟩ := loops positive bounded (unseen.trans (queueGate_unseen grant)) loop
        split at run
        · rename_i nobody
          have nobody : jobs = [] := List.isEmpty_iff.mp nobody
          obtain ⟨⟨k, last⟩, reap, finish⟩ := seq_eq_ok.mp run
          cases finish
          refine .empty gate stored going grant ?_ ((claimLoop_path (picks n granted) loop).2 nobody) flows reap
          rw [nobody] at ids
          exact List.map_eq_nil_iff.mp ids.symm
        · rename_i some'
          cases run
          exact .served gate stored going grant (by simpa using some') ids flows

namespace ClaimCall

/-- The arguments pass the checks that the call makes itself. -/
def Valid (c : ClaimCall) : Prop :=
  workerOk c.args.workerId ∧ (c.args.batch.any fun n => 1 ≤ n ∧ n ≤ 50) ∧
  (c.args.leaseSeconds.all fun n => 15 ≤ n ∧ n ≤ 86400) ∧
  (c.args.jobTypes.all fun ts => 1 ≤ ts.length ∧ ts.length ≤ 20) ∧
  c.args.affinityKey.all (·.length ≤ 120) ∧
  c.hashes.all fun hashes => hashes.length ≤ 32 ∧ hashes.Nodup ∧ hashes.all isSha256

/-- The candidate scans of the call. -/
def pick (env : Env) (c : ClaimCall) (batch : ℤ) (db : Db) :
    Scan → Core → Call (Option (Uuid × Job) × Scan) :=
  match c.hashes with
  | none => pickOrdinary env c.args ((db.queueFlow.get? c.args.queue).bind (·.priorityAgingSeconds))
      (saturatedKey db)
  | some hashes => fun scan core =>
      .ok (pickWithPolicies env c.args hashes batch (saturatedKey db) scan core)

/-- A valid call of an attested session passes the breaker and then claims. -/
theorem run_eq (attested : env.attested = true) (valid : c.Valid) (db : Db) :
    c.run env db = breakerGate env c.args.queue db >>= fun r => match r.1 with
      | some n => .ok (throttledOrEmpty c.args.acceptThrottled (some n), r.2)
      | none => claimBody env c.args r.2 (c.pick env) := by
  obtain ⟨args, hashes⟩ := c
  obtain ⟨worker, batch, lease, types, affinity, policies⟩ := valid
  cases hashes with
  | none =>
    simp only [run, claimJobs, gatedClaim, claimJobsUnattested, ensure, attested, worker, batch, lease,
      types, affinity, if_true]
    rfl
  | some hashes =>
    simp only [Option.all_some, decide_eq_true_eq] at policies
    simp only [run, claimJobsWithPolicies, gatedClaim, claimJobsWithPoliciesUnattested, ensure, attested,
      worker, batch, lease, types, affinity, policies, and_self, if_true]
    rfl

theorem batch_pos (valid : c.Valid) : 1 ≤ c.batch := by
  obtain ⟨-, asked, -⟩ := valid
  obtain ⟨n, given, low, -⟩ := by simpa using (Option.any_eq_true _ _).mp asked
  simp only [batch]
  split_ifs
  · exact le_rfl
  · simpa [given] using low

theorem picks (env : Env) (c : ClaimCall) (batch : ℤ) (db : Db) : Picks env c.args (c.pick env batch db) := by
  unfold pick
  split
  · exact pickOrdinary_picks
  · exact pickWithPolicies_picks

/-- A call that returns was held back by the breaker, or passed its own checks and claimed. -/
theorem run_cases (run : c.run env db = .ok (answer, db')) :
    (∃ n, breakerGate env c.args.queue db = .ok (some n, db') ∧
      answer = throttledOrEmpty c.args.acceptThrottled (some n)) ∨
    ∃ gated, breakerGate env c.args.queue db = .ok (none, gated) ∧ c.Valid ∧
      claimBody env c.args gated (c.pick env) = .ok (answer, db') := by
  obtain ⟨args, hashes⟩ := c
  cases hashes with
  | none =>
    simp only [ClaimCall.run, claimJobs, gatedClaim, seq_eq_ok] at run
    obtain ⟨-, -, ⟨wait, gated⟩, gate, run⟩ := run
    cases wait with
    | some n =>
      cases run
      exact .inl ⟨n, gate, rfl⟩
    | none =>
      simp only [claimJobsUnattested, seq_eq_ok, ensure_eq_ok] at run
      obtain ⟨-, worker, -, batch, -, lease, -, types, -, affinity, body⟩ := run
      exact .inr ⟨gated, gate, ⟨worker, batch, lease, types, affinity, rfl⟩, body⟩
  | some hashes =>
    simp only [ClaimCall.run, claimJobsWithPolicies, gatedClaim, seq_eq_ok] at run
    obtain ⟨-, -, ⟨wait, gated⟩, gate, run⟩ := run
    cases wait with
    | some n =>
      cases run
      exact .inl ⟨n, gate, rfl⟩
    | none =>
      simp only [claimJobsWithPoliciesUnattested, seq_eq_ok, ensure_eq_ok] at run
      obtain ⟨-, ⟨worker, batch⟩, -, ⟨lease, types, affinity⟩, -, policies, body⟩ := run
      exact .inr ⟨gated, gate, ⟨worker, batch, lease, types, affinity, decide_eq_true policies⟩, body⟩

/-- The loop of the call starts the jobs that its grant serves. -/
theorem loop_served {entered looped : Db} {n : ℤ} {jobs : List ClaimedJob}
    (unseen : Unseen c.args.queue db entered) (rated : db.Rated) (low : 1 ≤ n) (high : n ≤ c.batch)
    (loop : claimLoop env c.args (c.pick env n entered) (n + 20).toNat n ⟨[], c.args.affinityKey⟩ entered =
      .ok (jobs, looped)) :
    jobs.map (·.jobId) = (c.serves env db n).map Prod.fst ∧ looped.queueFlow = entered.queueFlow := by
  rw [← unseen.serves env n]
  have rated := unseen.rated rated
  obtain ⟨args, hashes⟩ := c
  cases hashes with
  | none => exact claimLoop_served pickOrdinary_picks (pickOrdinary_follows env args _ _) rated loop
  | some hashes =>
    cases named : args.jobId with
    | none =>
      exact claimLoop_served pickWithPolicies_picks (pickWithPolicies_follows low named) rated loop
    | some id =>
      have one' : n = 1 := by
        simp only [ClaimCall.batch, named, Option.isSome_some, if_true] at high
        omega
      subst one'
      exact claimLoop_target_served named rated loop

/-- A call that returns starts nothing and changes no job, or runs its loop behind its gates. -/
theorem run_loops (run : c.run env db = .ok (answer, db')) :
    answer.jobs = [] ∧ Unseen c.args.queue db db' ∨
    ∃ n entered looped, Unseen c.args.queue db entered ∧ 1 ≤ n ∧ n ≤ c.batch ∧
      claimLoop env c.args (c.pick env n entered) (n + 20).toNat n ⟨[], c.args.affinityKey⟩ entered =
        .ok (answer.jobs, looped) ∧
      (db' = looped ∨ answer.jobs = [] ∧ ∃ k, reapExpired env (some 5) looped = .ok (k, db')) := by
  have throttled (accept : Bool) (wait : Option ℤ) : (throttledOrEmpty accept wait).jobs = [] := by
    unfold throttledOrEmpty
    split_ifs <;> rfl
  obtain ⟨n, gate, rfl⟩ | ⟨gated, gate, valid, body⟩ := run_cases run
  · exact .inl ⟨throttled _ _, breakerGate_unseen gate⟩
  · have unseen := breakerGate_unseen gate
    simp only [claimBody] at body
    split at body
    · cases body
      exact .inl ⟨rfl, unseen⟩
    · split at body
      · cases body
        exact .inl ⟨rfl, unseen⟩
      · obtain ⟨⟨gate', granted⟩, grant, body⟩ := seq_eq_ok.mp body
        have entered := unseen.trans (queueGate_unseen grant)
        cases gate' with
        | error answer' =>
          cases body
          refine .inl ⟨?_, entered⟩
          simp only [queueGate] at grant
          split at grant
          · cases grant
            exact throttled _ _
          · split at grant
            · cases grant
            · obtain ⟨_, -, grant⟩ := seq_eq_ok.mp grant
              split at grant <;> cases grant
              exact throttled _ _
        | ok n =>
          obtain ⟨positive, bounded⟩ := queueGate_grant (batch_pos valid) grant
          simp only [runClaim, seq_eq_ok] at body
          obtain ⟨⟨jobs, looped⟩, loop, body⟩ := body
          split at body
          · rename_i nobody
            have nobody : jobs = [] := List.isEmpty_iff.mp nobody
            obtain ⟨⟨k, last⟩, reap, finish⟩ := seq_eq_ok.mp body
            cases finish
            subst nobody
            exact .inr ⟨n, granted, looped, entered, positive, bounded, loop, .inr ⟨rfl, k, reap⟩⟩
          · cases body
            exact .inr ⟨n, granted, looped, entered, positive, bounded, loop, .inl rfl⟩

theorem outcome (run : c.run env db = .ok (answer, db')) (rated : db.Rated) : c.Outcome env db answer db' := by
  obtain ⟨n, gate, rfl⟩ | ⟨gated, gate, valid, body⟩ := run_cases run
  · exact .held gate
  · exact claimBody_outcome gate (batch_pos valid) (c.picks env)
      (fun low high unseen loop => loop_served unseen rated low high loop) body

end ClaimCall

end Outcome

/-- A claim for one job of a queue. -/
def oneJob : ClaimCall := ⟨.simple "q" 1, none⟩

/-- A claim made after some calls on a fresh installation. -/
theorem ClaimCall.of_plays {site : Site} {calls : List (Time × Command)} {env : Env} {c : ClaimCall}
    {p : Db → ClaimBatch → Db → Bool}
    (plays : System.plays site calls (.installed site 0) (fun s =>
      (c.run env s.db).toOption.any fun r => p s.db r.1 r.2) = true) :
    ∃ (s : System) (answer : ClaimBatch) (db' : Db), System.Reachable site anyCall s ∧
      c.run env s.db = .ok (answer, db') ∧ p s.db answer db' = true := by
  obtain ⟨s, run, there⟩ := System.plays_run anyCall plays fun _ _ _ => trivial
  obtain ⟨⟨answer, db⟩, claimed, there⟩ := (Option.any_eq_true _ _).mp there
  exact ⟨s, answer, db, ⟨0, run⟩, toOption_eq_some.mp claimed, there⟩

end Taskq
