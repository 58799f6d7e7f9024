import Taskq.Claiming.Takes
import Taskq.Contract.DryKeys
import Taskq.Contract.Metering

/-! The rate of claims: over any window of time a queue, and a flow key across the queues, start no more
jobs than their burst and the tokens of the window, and a claim that a dry bucket throttles is told when
to come back. -/
namespace Taskq
open Relational

/-- The jobs that the call of a moment claims. -/
def Moment.claimed (m : Moment) : List Uuid :=
  match m.command.claim with
  | none => []
  | some c =>
    match c.run m.env m.before with
    | .ok (answer, _) => answer.jobs.map (·.jobId)
    | .error _ => []

/-- The moment lies in a window of time, in microseconds. -/
def Moment.within (opens closes : ℚ) (m : Moment) : Bool := opens ≤ m.env.now ∧ m.env.now ≤ closes

/-- How many jobs that a predicate selects are claimed in a window. -/
def claimedWithin (opens closes : ℚ) (p : JobRow → Bool) (moments : List Moment) : ℕ :=
  ((moments.filter (·.within opens closes)).map fun m => countJobs p m.before.toCore m.claimed).sum

/-- The queue has a rate and a burst, and no ramp is under way. -/
def Paced (queue : String) (r b : ℤ) (env : Env) (db : Db) : Prop :=
  ∃ q, db.queues.get? queue = some q ∧ q.claimRatePerMinute = some r ∧ q.claimBurst.getD r = b ∧
    flowScale env db queue q.rampSeconds = 1

section Window

variable {site : Site} {allowed : System → Env → Command → Prop} {s t : System} {moments : List Moment}
  {m : Moment} {c : ClaimCall} {env : Env} {q : Queue} {queue key : String} {limit : FlowLimit} {r b : ℤ}
  {opens closes w : ℚ} {p : JobRow → Bool} {db : Db}

theorem claimedWithin_concat (moments : List Moment) (m : Moment) :
    claimedWithin opens closes p (moments ++ [m]) = claimedWithin opens closes p moments +
      if m.within opens closes then countJobs p m.before.toCore m.claimed else 0 := by
  unfold claimedWithin
  rw [List.filter_append, List.map_append, List.sum_append, List.filter_singleton]
  split_ifs with here <;> simp [here]

theorem Moment.claimed_none (other : m.command.claim = none) : m.claimed = [] := by
  simp [Moment.claimed, other]

theorem Moment.claimed_eq (claims : m.command.claim = some c) {answer : ClaimBatch} {db' : Db}
    (run : c.run m.env m.before = .ok (answer, db')) : m.claimed = answer.jobs.map (·.jobId) := by
  simp [Moment.claimed, claims, run]

/-- A step of a run that claims is a claim call that returns. -/
theorem System.Step.claims {command : Command} (step : System.Step site env command s t)
    (claims : command.claim = some c) : ∃ answer, c.run env s.db = .ok (answer, t.db) := by
  have run := step.exec
  rw [ClaimCall.of_claim claims, ClaimCall.exec] at run
  exact map_snd_eq_ok.mp run

theorem System.Step.server {command : Command} (step : System.Step site env command s t) : env.toSite = site := by
  cases step with
  | commit server => exact server

/-- The bucket of a queue at its configured rate. -/
theorem Paced.bucket (paced : Paced queue r b env db) (rate : 0 < r) (burst : 0 < b)
    (stored : db.queues.get? queue = some q) :
    q.claimRatePerMinute = some r ∧ bucketLimit env queue q r db = ⟨r, some b⟩ := by
  obtain ⟨_, stored', rated, bursts, whole⟩ := paced
  cases stored.symm.trans stored'
  refine ⟨rated, ?_⟩
  have rate : max 1 r = r := max_eq_right rate
  have burst : max 1 b = b := max_eq_right burst
  simp only [bucketLimit, whole, mul_one, Int.floor_intCast, bursts, rate, burst]

/-- The bucket of a key accounts for all jobs of the key that are claimed in a window. -/
theorem key_window (exact : site.arithmetic = .exact) (rated : s.db.Rated) (trace : System.Trace site allowed s moments t)
    (limited : ∀ m ∈ moments, m.within opens closes → m.before.flowLimits.get? key = some limit) :
    limit.bucket.Window opens closes
      (claimedWithin opens closes (fun j => j.flowKey = some key) moments) (t.db.keyTat key) := by
  induction trace with
  | start => exact .start _
  | @step moments t u env command before permitted step ih =>
    have rated' : t.db.Rated :=
      before.run.induction (I := fun s => s.db.Rated) rated fun rated _ step => Command.rated step.exec rated
    have onward := (Command.onward step.exec rated').2 key
    have taken := ih fun m member => limited m (List.mem_append_left _ member)
    rw [claimedWithin_concat]
    split_ifs with here
    · cases claims : command.claim with
      | none =>
        rw [Moment.claimed_none claims]
        exact .outside taken onward
      | some c =>
        obtain ⟨answer, run⟩ := step.claims claims
        have limited' := limited _ (List.mem_append_right _ (List.mem_singleton_self _)) here
        rw [Moment.claimed_eq claims run]
        simp only [Moment.within, decide_eq_true_eq] at here
        exact .inside taken here.1 here.2 (c.spends_key run (step.server ▸ exact) rated' limited')
    · exact .outside taken onward

/-- The bucket of a queue accounts for all jobs that are claimed from it in a window. -/
theorem queue_window (exact : site.arithmetic = .exact) (rated : s.db.Rated)
    (trace : System.Trace site allowed s moments t) (rate : 0 < r) (burst : 0 < b)
    (paced : ∀ m ∈ moments, m.within opens closes → Paced queue r b m.env m.before) :
    ∃ k, (FlowLimit.mk r (some b)).bucket.Window opens closes k (t.db.tat queue) ∧
      claimedWithin opens closes (fun j => j.queue = queue) moments ≤ k := by
  induction trace with
  | start => exact ⟨0, .start _, le_rfl⟩
  | @step moments t u env command before permitted step ih =>
    have rated' : t.db.Rated :=
      before.run.induction (I := fun s => s.db.Rated) rated fun rated _ step => Command.rated step.exec rated
    have onward := (Command.onward step.exec rated').1 queue
    obtain ⟨k, taken, bound⟩ := ih fun m member => paced m (List.mem_append_left _ member)
    have idle (none' : ∀ here : Moment.within opens closes ⟨env, command, t.db, u.db⟩ = true,
        countJobs (fun j => j.queue = queue) t.db.toCore (Moment.claimed ⟨env, command, t.db, u.db⟩) = 0) :
        ∃ k, (FlowLimit.mk r (some b)).bucket.Window opens closes k (u.db.tat queue) ∧
          claimedWithin opens closes (fun j => j.queue = queue)
            (moments ++ [⟨env, command, t.db, u.db⟩]) ≤ k := by
      refine ⟨k, .outside taken onward, ?_⟩
      rw [claimedWithin_concat]
      split_ifs with here
      · rw [none' here]
        exact bound
      · exact bound
    by_cases here : Moment.within opens closes ⟨env, command, t.db, u.db⟩ = true
    · cases claims : command.claim with
      | none => exact idle fun _ => by rw [Moment.claimed_none claims]; rfl
      | some c =>
        obtain ⟨answer, run⟩ := step.claims claims
        have outcome := c.outcome run rated'
        obtain ⟨few, ready⟩ := outcome.started
        have claimed := Moment.claimed_eq (m := ⟨env, command, t.db, u.db⟩) claims run
        by_cases own : c.args.queue = queue
        · subst own
          have paced' := paced _ (List.mem_append_right _ (List.mem_singleton_self _)) here
          have ⟨q, stored, _⟩ := paced'
          obtain ⟨rates, same⟩ := paced'.bucket rate burst stored
          have spends := (outcome.charges stored rates).spends (step.server ▸ exact)
          rw [same] at spends
          simp only [Moment.within, decide_eq_true_eq] at here
          refine ⟨_, .inside taken here.1 here.2 spends, ?_⟩
          rw [claimedWithin_concat]
          split_ifs
          · refine Nat.add_le_add bound (le_trans ?_ few)
            rw [claimed, countJobs]
            simpa using List.countP_le_length (l := answer.jobs.map (·.jobId))
          · exact bound.trans (Nat.le_add_right _ _)
        · refine idle fun _ => ?_
          rw [claimed, countJobs, List.countP_eq_zero]
          intro id member
          obtain ⟨job, stored, good⟩ := ready id member
          simp only [claimable, Bool.and_eq_true, decide_eq_true_eq] at good
          obtain ⟨⟨⟨⟨⟨⟨from', -⟩, -⟩, -⟩, -⟩, -⟩, -⟩ := good
          simp [stored, from', own]
    · exact idle fun here' => absurd here' here

end Window

section Hint

variable {site : Site} {allowed : System → Env → Command → Prop} {s t : System} {moments : List Moment}
  {c : ClaimCall} {env : Env} {q : Queue} {queue : String} {r b n : ℤ} {db db' : Db}

/-- The bucket of its queue throttles a claim for `n` seconds: the breaker lets it pass, and the running cap
leaves it room. -/
structure Throttled (env : Env) (c : ClaimCall) (n : ℤ) (db db' : Db) : Prop where
  run : c.run env db = .ok (⟨.throttled, [], some n⟩, db')
  passes : breakerPasses env c.args.queue db = true
  room : ∀ q, db.queues.get? c.args.queue = some q → 0 < leeway env c.args.queue q c.batch db

/-- A claim that the bucket of its queue throttles has found it dry, and is told when the next token comes. -/
theorem Throttled.waits (throttled : Throttled env c n db db') (stored : db.queues.get? c.args.queue = some q)
    (rated : q.claimRatePerMinute = some r) :
    tokensLeft env (bucketLimit env c.args.queue q r db) (db.tat c.args.queue) ≤ 0 ∧
      waitLeft env (bucketLimit env c.args.queue q r db) (db.tat c.args.queue) ≤ n ∧ db'.tat = db.tat := by
  have room := throttled.room q stored
  obtain ⟨wait, gate, -⟩ | ⟨gated, gate, -, body⟩ := ClaimCall.run_cases throttled.run
  · exact absurd ((breakerGate_passes gate).mpr throttled.passes) (by simp)
  · have unseen := breakerGate_unseen gate
    have tat := breakerGate_tat gate
    rw [← unseen.leeway] at room
    rw [← unseen.bucketLimit, ← tat]
    simp only [claimBody, unseen.queues, stored] at body
    split at body
    · cases body
    · obtain ⟨⟨gate', granted⟩, grant, body⟩ := seq_eq_ok.mp body
      cases gate' with
      | ok batch =>
        simp only [runClaim, seq_eq_ok] at body
        obtain ⟨_, -, body⟩ := body
        split at body
        · obtain ⟨_, -, finish⟩ := seq_eq_ok.mp body
          split_ifs at finish <;> cases finish
        · cases body
      | error answer =>
        cases body
        simp only [queueGate, rated] at grant
        split at grant
        · rename_i full
          simp only [leeway, full, if_true, lt_irrefl] at room
        · rename_i free
          simp only [leeway, eq_false_of_ne_true free, Bool.false_eq_true, if_false] at room
          obtain ⟨⟨grant', consumed⟩, consume, grant⟩ := seq_eq_ok.mp grant
          cases grant' with
          | tokens k => cases grant
          | wait wait =>
            obtain ⟨-, -, dry, -⟩ | ⟨tokens, -⟩ := flowConsumeQueue_tokens
              (show bucketLimit env c.args.queue q r gated = _ from rfl) consume
            · refine ⟨(min_le_iff.mp dry).resolve_left (not_le.mpr room), ?_⟩
              simp only [throttledOrEmpty, Except.ok.injEq, Prod.mk.injEq, Except.error.injEq] at grant
              obtain ⟨hint, rfl⟩ := grant
              split_ifs at hint
              · cases hint
                obtain ⟨bound, kept⟩ := flowConsumeQueue_wait
                  (show bucketLimit env c.args.queue q r gated = _ from rfl) consume
                exact ⟨bound.trans (Int.cast_le.mpr (le_max_right 1 wait)), kept⟩
              · cases hint
            · cases tokens

/-- Without claims on a queue its bucket stays as it is. -/
theorem tat_kept (rated : s.db.Rated) (trace : System.Trace site allowed s moments t)
    (calm : ∀ m ∈ moments, m.command.claim.all (·.args.queue ≠ queue)) : t.db.tat queue = s.db.tat queue := by
  induction trace with
  | start => rfl
  | @step moments t u env command before permitted step ih =>
    have rated' : t.db.Rated :=
      before.run.induction (I := fun s => s.db.Rated) rated fun rated _ step => Command.rated step.exec rated
    have here := calm _ (List.mem_append_right _ (List.mem_singleton_self _))
    refine Eq.trans ?_ (ih fun m member => calm m (List.mem_append_left _ member))
    cases claims : command.claim with
    | none => exact congrFun (congrArg Prod.fst (Command.buckets step.exec claims)) queue
    | some c =>
      obtain ⟨answer, run⟩ := step.claims claims
      rw [claims, Option.all_some, decide_eq_true_eq] at here
      exact (c.outcome run rated').others (Ne.symm here)

/-- The bucket of a queue lets a claim through that has room exactly when it holds a token. -/
theorem queueGate_lets_iff {gated : Db} (rated : q.claimRatePerMinute = some r)
    (fits : max 1 (q.claimBurst.getD r) ≤ 2147483647)
    (gate : breakerGate env c.args.queue db = .ok (none, gated)) (room : 0 < leeway env c.args.queue q c.batch gated) :
    (∃ k granted, queueGate env c.args q c.batch gated = .ok (.ok k, granted) ∧ 0 < k) ↔
      0 < tokensLeft env (bucketLimit env c.args.queue q r db) (db.tat c.args.queue) := by
  have unseen := breakerGate_unseen gate
  rw [← unseen.bucketLimit, ← breakerGate_tat gate]
  constructor
  · rintro ⟨k, granted, run, some'⟩
    obtain ⟨rfl, -⟩ := (queueGate_granted run).1 k rfl
    simp only [Taskq.granted, rated] at some'
    exact (lt_min_iff.mp ((lt_max_iff.mp some').resolve_left (lt_irrefl 0))).2
  · intro some'
    have few := tokensLeft_le_burst env (bucketLimit_rated env c.args.queue q r gated) (gated.tat c.args.queue)
    have positive : 0 < granted env c.args.queue q c.batch gated := by
      simp only [granted, rated]
      exact lt_max_of_lt_right (lt_min room some')
    have fits' : TokensFit env c.args.queue q gated := by
      intro rate' rated'
      cases rated.symm.trans rated'
      exact ⟨by omega, few.trans fits⟩
    obtain ⟨d, run⟩ := queueGate_total fits' positive
    exact ⟨_, d, run, positive⟩

/-- A bucket with a token lets a claim through. -/
theorem queueGate_lets {env : Env} {gated : Db} (rate : 0 < r) (burst : 0 < b) (fits : b ≤ 2147483647)
    (paced : Paced c.args.queue r b env db) (gate : breakerGate env c.args.queue db = .ok (none, gated))
    (stored : db.queues.get? c.args.queue = some q) (room : 0 < leeway env c.args.queue q c.batch gated)
    (some' : 0 < tokensLeft env ⟨r, some b⟩ (db.tat c.args.queue)) :
    ∃ k granted, queueGate env c.args q c.batch gated = .ok (.ok k, granted) ∧ 0 < k := by
  obtain ⟨rated, same⟩ := paced.bucket rate burst stored
  have burst' : max 1 (q.claimBurst.getD r) = b := Option.some.inj (congrArg FlowLimit.burst same)
  refine (queueGate_lets_iff rated (burst' ▸ fits) gate room).mpr ?_
  rw [same]
  exact some'

/-- A bucket whose wait has passed meanwhile holds a token. -/
theorem waitLeft_passed {env env' : Env} {limit : FlowLimit} (same : env'.arithmetic = env.arithmetic)
    (rated : 0 < limit.ratePerMinute) (burst : 0 < limit.burst.getD limit.ratePerMinute) {stored : Option ℚ}
    (bound : waitLeft env limit stored ≤ n) (later : env.now + n * 1000000 ≤ env'.now) :
    waitLeft env' limit stored ≤ 0 := by
  have positive := emissionInterval_pos env.toSite rated
  have interval : emissionInterval env'.toSite limit.ratePerMinute = emissionInterval env.toSite limit.ratePerMinute := by
    simp only [emissionInterval, same]
  have later : (env.now : ℚ) + n * 1000000 ≤ env'.now := by exact_mod_cast later
  have some' : (1 : ℚ) ≤ (limit.burst.getD limit.ratePerMinute : ℤ) := by exact_mod_cast burst
  unfold waitLeft at bound ⊢
  rw [interval]
  generalize emissionInterval env.toSite limit.ratePerMinute = t at positive bound ⊢
  dsimp only at bound ⊢
  have whole : t ≤ t * (limit.burst.getD limit.ratePerMinute : ℤ) := le_mul_of_one_le_right positive.le some'
  have reached : clampedTat env' stored ≤ max (clampedTat env stored) env'.now := by
    refine max_le ?_ (le_max_right _ _)
    cases stored with
    | none => exact le_max_right _ _
    | some x => exact (le_max_left x _).trans (le_max_left _ _)
  rcases le_total (clampedTat env stored) env'.now with early | late
  · rw [max_eq_right early] at reached
    linarith
  · rw [max_eq_left late] at reached
    linarith

/-- The same as a test. -/
def pacedNow (queue : String) (r b : ℤ) (env : Env) (db : Db) : Bool :=
  (db.queues.get? queue).any fun q =>
    q.claimRatePerMinute = some r && q.claimBurst.getD r = b && flowScale env db queue q.rampSeconds = 1

theorem pacedNow_iff : pacedNow queue r b env db = true ↔ Paced queue r b env db := by
  simp only [pacedNow, Paced, Option.any_eq_true, Bool.and_eq_true, decide_eq_true_eq, and_assoc]

end Hint

/-- In exact time, over any window of `w` seconds, whatever else happens, no more than `b + ⌊w * r / 60⌋` jobs of a queue
are claimed while its rate is `r` per minute and its burst `b`, nor of a flow key across all queues. However times and
quotients are rounded, a claim on the queue that waits out the hint of a throttled one finds a token, if no other took it. -/
theorem claim_rates_bounded {site : Site} {s t : System} {moments : List Moment}
    (reachable : System.Reachable site anyCall s) (trace : System.Trace site anyCall s moments t) :
    (site.arithmetic = .exact → ∀ (queue : String) (r b : ℤ) (opens w : ℚ), 0 < r → 0 < b → 0 ≤ w →
      (∀ m ∈ moments, m.within opens (opens + w * 1000000) → Paced queue r b m.env m.before) →
      (claimedWithin opens (opens + w * 1000000) (fun j => j.queue = queue) moments : ℤ) ≤
        b + ⌊w * r / 60⌋) ∧
    (site.arithmetic = .exact → ∀ (key : String) (limit : FlowLimit) (opens w : ℚ), 0 < limit.ratePerMinute →
      0 < limit.burst.getD limit.ratePerMinute → 0 ≤ w →
      (∀ m ∈ moments, m.within opens (opens + w * 1000000) → m.before.flowLimits.get? key = some limit) →
      (claimedWithin opens (opens + w * 1000000) (fun j => j.flowKey = some key) moments : ℤ) ≤
        limit.burst.getD limit.ratePerMinute + ⌊w * limit.ratePerMinute / 60⌋) ∧
    ∀ (queue : String) (r b n : ℤ) (env env' : Env) (c c' : ClaimCall) (q : Queue) (db gated : Db),
      0 < r → 0 < b → b ≤ 2147483647 → c.args.queue = queue → c'.args.queue = queue →
      env'.arithmetic = env.arithmetic → Paced queue r b env db → Throttled env c n db s.db →
      (∀ m ∈ moments, m.command.claim.all (·.args.queue ≠ queue)) →
      env.now + n * 1000000 ≤ env'.now → Paced queue r b env' t.db →
      breakerGate env' queue t.db = .ok (none, gated) → t.db.queues.get? queue = some q →
      0 < leeway env' queue q c'.batch gated →
      ∃ k granted, queueGate env' c'.args q c'.batch gated = .ok (.ok k, granted) ∧ 0 < k := by
  have span {r : ℤ} (rate : 0 < r) (opens w : ℚ) : (opens + w * 1000000 - opens) / (60000000 / r) = w * r / 60 := by
    have : (0 : ℚ) < r := by exact_mod_cast rate
    field_simp
    ring
  refine ⟨fun exact queue r b opens w rate burst forward paced => ?_,
    fun exact key limit opens w rate burst forward limited => ?_,
    fun queue r b n env env' c c' q db gated rate burst fits own own' same before throttled calm later paced gate
      stored room => ?_⟩
  · obtain ⟨k, taken, few⟩ := queue_window exact reachable.rated trace rate burst paced
    have bound := taken.bound (FlowLimit.bucket_positive rate) burst.le (by linarith)
    simp only [FlowLimit.bucket, Option.getD_some, span rate] at bound
    exact (Int.ofNat_le.mpr few).trans bound
  · have bound := (key_window exact reachable.rated trace limited).bound (FlowLimit.bucket_positive rate) burst.le
      (by linarith)
    simp only [FlowLimit.bucket, span rate] at bound
    exact bound
  · subst own
    obtain ⟨q₀, stored₀, -⟩ := id before
    obtain ⟨rated, limit⟩ := before.bucket rate burst stored₀
    obtain ⟨-, bound, kept⟩ := throttled.waits stored₀ rated
    rw [limit] at bound
    have waited : waitLeft env' ⟨r, some b⟩ (db.tat c.args.queue) ≤ 0 := waitLeft_passed same rate (by simpa) bound later
    have some' : 0 < tokensLeft env' ⟨r, some b⟩ (db.tat c.args.queue) := tokensLeft_pos env' rate waited
    rw [← kept, ← tat_kept reachable.rated trace calm] at some'
    exact queueGate_lets rate burst fits (own'.symm ▸ paced) (own'.symm ▸ gate) (own'.symm ▸ stored)
      (own'.symm ▸ room) (own'.symm ▸ some')

/-- A server whose arithmetic does not round. -/
def Site.exactly : Site := { Site.digits with arithmetic := .exact }

/-- A queue and a flow key that start one job a second, and two jobs of them. -/
def twoPaced : List (Time × Command) :=
  [(0, oneASecond), (0, .setFlowLimit (some "k") (some 60) (some 1)), (0, keyed), (0, keyed)]

/-- A claim starts a job, a second one is throttled, and a second later the gate lets claims through. -/
def claimsTwice (db : Db) : Bool :=
  match oneJob.run (.alone .exactly 0 9) db with
  | .error _ => false
  | .ok (_, db₁) =>
    claimedWithin 0 (0 + 1 / 2 * 1000000) (fun j => j.queue = "q")
      [⟨.alone .exactly 0 9, oneJob.command, db, db₁⟩] = 1 &&
    pacedNow "q" 60 1 (.alone .exactly 0 9) db && db.flowLimits.get? "k" = some ⟨60, some 1⟩ &&
    pacedNow "q" 60 1 (.alone .exactly 0 10) db₁ && breakerPasses (.alone .exactly 0 10) "q" db₁ &&
    (db₁.queues.get? "q").all (fun q => 0 < leeway (.alone .exactly 0 10) "q" q 1 db₁) &&
    match oneJob.run (.alone .exactly 0 10) db₁ with
    | .error _ => false
    | .ok (answer, db₂) =>
      answer = ⟨.throttled, [], some 1⟩ && pacedNow "q" 60 1 (.alone .exactly 1000000 11) db₂ &&
      match breakerGate (.alone .exactly 1000000 11) "q" db₂ with
      | .ok (none, gated) =>
        (db₂.queues.get? "q").any fun q => 0 < leeway (.alone .exactly 1000000 11) "q" q 1 gated
      | _ => false

/-- Of two jobs the first is claimed at once, and the second after a second. -/
theorem claim_rates_bounded_two : ∃ (s : System) (moments : List Moment) (t u : System) (gated : Db) (q : Queue),
    claimedWithin 0 (0 + 1 / 2 * 1000000) (fun j => j.queue = "q") moments = 1 ∧
    ((claimedWithin 0 (0 + 1 / 2 * 1000000) (fun j => j.queue = "q") moments : ℤ) ≤ 1 + ⌊(1 / 2 : ℚ) * 60 / 60⌋) ∧
    ((claimedWithin 0 (0 + 1 / 2 * 1000000) (fun j => j.flowKey = some "k") moments : ℤ) ≤
      1 + ⌊(1 / 2 : ℚ) * 60 / 60⌋) ∧
    System.Trace .exactly anyCall s moments t ∧ Throttled (.alone .exactly 0 10) oneJob 1 t.db u.db ∧
    ∃ k granted, queueGate (.alone .exactly 1000000 11) oneJob.args q oneJob.batch gated = .ok (.ok k, granted) ∧
      0 < k := by
  have played : System.plays .exactly twoPaced (.installed .exactly 0) (fun s => decide (s.xid < 9) && claimsTwice s.db) =
    true := by decide +kernel
  obtain ⟨s, run, there⟩ := System.plays_run anyCall played fun _ _ _ => trivial
  simp only [Bool.and_eq_true, decide_eq_true_eq] at there
  obtain ⟨early, there⟩ := there
  unfold claimsTwice at there
  split at there
  · cases there
  · rename_i answer₁ db₁ first
    simp only [Bool.and_eq_true, decide_eq_true_eq] at there
    obtain ⟨⟨⟨⟨⟨⟨one', paced⟩, limited⟩, paced₁⟩, passes⟩, room⟩, there⟩ := there
    split at there
    · cases there
    · rename_i answer₂ db₂ second
      simp only [Bool.and_eq_true, decide_eq_true_eq] at there
      obtain ⟨⟨rfl, paced₂⟩, there⟩ := there
      split at there
      · rename_i gated gate
        obtain ⟨q, stored, room'⟩ := (Option.any_eq_true _ _).mp there
        have reachable : System.Reachable .exactly anyCall s := ⟨0, run⟩
        have step₁ : System.Step .exactly (.alone .exactly 0 9) oneJob.command s
            ⟨db₁, 0, 9, s.admitted ++ newJobs s.db db₁⟩ :=
          .commit rfl early (by rw [ClaimCall.exec, first]; rfl)
        have step₂ : System.Step .exactly (.alone .exactly 0 10) oneJob.command
            ⟨db₁, 0, 9, s.admitted ++ newJobs s.db db₁⟩
            ⟨db₂, 0, 10, s.admitted ++ newJobs s.db db₁ ++ newJobs db₁ db₂⟩ :=
          .commit rfl (Nat.lt_succ_self 9) (by rw [ClaimCall.exec, second]; rfl)
        have trace : System.Trace .exactly anyCall s _ _ := .step .start trivial step₁
        have throttled : Throttled (.alone .exactly 0 10) oneJob 1 db₁ db₂ := ⟨second, passes, fun q stored =>
          of_decide_eq_true (Option.all_eq_true _ _ |>.mp room q stored)⟩
        have reachable₂ : System.Reachable .exactly anyCall
            ⟨db₂, 0, 10, s.admitted ++ newJobs s.db db₁ ++ newJobs db₁ db₂⟩ :=
          reachable.extend (trace.run.step trivial step₂)
        obtain ⟨queues, keys, -⟩ := claim_rates_bounded reachable trace
        refine ⟨s, _, _, ⟨db₂, 0, 10, s.admitted ++ newJobs s.db db₁ ++ newJobs db₁ db₂⟩, gated, q, one',
          queues rfl "q" 60 1 0 (1 / 2) (by decide) (by decide) (by norm_num) ?_,
          keys rfl "k" ⟨60, some 1⟩ 0 (1 / 2) (by decide) (by decide) (by norm_num) ?_, trace, throttled,
          (claim_rates_bounded reachable₂ .start).2.2 "q" 60 1 1 _ (.alone .exactly 1000000 11) oneJob oneJob q db₁
            gated (by decide) (by decide) (by decide) rfl rfl (Eq.refl (Env.alone .exactly 0 10).arithmetic)
            (pacedNow_iff.mp paced₁) throttled (fun _ member => by cases member) (by decide) (pacedNow_iff.mp paced₂)
            gate stored (of_decide_eq_true room')⟩
        · intro m member _
          cases List.mem_singleton.mp member
          exact pacedNow_iff.mp paced
        · intro m member _
          cases List.mem_singleton.mp member
          exact limited
      · cases there

end Taskq
