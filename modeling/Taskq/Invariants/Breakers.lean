import Mathlib.Data.Bool.Count
import Taskq.Invariants.Flows
import Taskq.Invariants.History
import Taskq.Library.CircuitBreaker

/-! The breaker of a queue as its flow row keeps it: counters that stand for all that the breaker was told. -/
namespace Taskq
open Relational
open CircuitBreaker (Signal Breaker Window Ending RateRule LatencyRule feed streak streak_failed streak_succeeded)

variable {env : Env} {a : Arithmetic} {db db' : Db} {queue q : String} {row row' : QueueFlow} {b : Breaker Time}

section Tracking

def BreakerState.phase : BreakerState → CircuitBreaker.Phase
  | .closed => .closed
  | .opened => .opened
  | .halfOpen => .probing

/-- The share of failures is a quotient, rounded as the arithmetic rounds it. -/
def BreakerRate.rule (a : Arithmetic) (r : BreakerRate) : RateRule Time where
  reached failures samples := r.failureRatio ≤ a.divide 0 failures samples
  width := seconds r.windowSeconds
  volume := r.minVolume

def BreakerLatency.rule (r : BreakerLatency) : LatencyRule Time := ⟨r.thresholdMs, seconds r.windowSeconds, r.minVolume⟩

/-- The samples that a window holds, if there is one. -/
def taken {α : Type} (w : Option (Window Time α)) : List α := w.elim [] (·.samples)

theorem taken_some {α : Type} (w : Window Time α) : taken (some w) = w.samples := rfl

/-- The breaker columns of a row say what the breaker holds: lengths for lists, sums and counts for samples. -/
structure Tracks (a : Arithmetic) (row : QueueFlow) (b : Breaker Time) : Prop where
  threshold : b.threshold = row.breakerFailureThreshold
  cooldown : b.cooldown = seconds (row.breakerCooldownSeconds.getD 30)
  needed : b.needed = row.breakerHalfOpenSuccesses.getD 1
  rate : b.rate = row.breakerRate.map (·.rule a)
  latency : b.latency = row.breakerLatency.map (·.rule)
  phase : b.phase = row.breakerState.phase
  trippedAt : b.trippedAt = row.breakerTrippedAt
  successes : b.successes = row.breakerProbeSuccesses
  streak : row.breakerFailureStreak = (streak b.heard : ℤ)
  sampledStart : row.breakerWindowStart = b.sampled.map (·.start)
  failures : row.breakerWindowFailures = ((taken b.sampled).count true : ℤ)
  clean : row.breakerWindowSuccesses = ((taken b.sampled).count false : ℤ)
  timedStart : row.breakerLatencyWindowStart = b.timings.map (·.start)
  sum : row.breakerLatencySumMs = (taken b.timings).sum
  count : row.breakerLatencyCount = ((taken b.timings).length : ℤ)
  openings : b.openings = row.breakerOpenedTotal

/-- The rows differ in the bucket, the ramp, the aging and the time of the last write only. -/
def Alike (row row' : QueueFlow) : Prop :=
  ∃ tat ramp aging updated, row' = { row with
    tat := tat, rampStartedAt := ramp, priorityAgingSeconds := aging, updatedAt := updated }

theorem Alike.refl (row : QueueFlow) : Alike row row := ⟨_, _, _, _, rfl⟩

theorem Alike.edited (alike : Alike row row') (tat : Option ℚ) (ramp : Option Time) (aging : Option ℤ) (updated : Time) :
    Alike row { row' with
      tat := tat, rampStartedAt := ramp, priorityAgingSeconds := aging, updatedAt := updated } := by
  obtain ⟨_, _, _, _, rfl⟩ := alike
  exact ⟨tat, ramp, aging, updated, rfl⟩

theorem Tracks.alike (tracks : Tracks a row b) (alike : Alike row row') : Tracks a row' b := by
  obtain ⟨tat, ramp, aging, updated, rfl⟩ := alike
  exact ⟨tracks.threshold, tracks.cooldown, tracks.needed, tracks.rate, tracks.latency, tracks.phase, tracks.trippedAt,
    tracks.successes, tracks.streak, tracks.sampledStart, tracks.failures, tracks.clean, tracks.timedStart, tracks.sum,
    tracks.count, tracks.openings⟩

/-- The flow row of a queue, and the defaults when it has none. -/
def Db.flowRow (db : Db) (queue : String) : QueueFlow := (db.queueFlow.get? queue).getD (.fresh 0)

theorem tracks_fresh (a : Arithmetic) (now : Time) : Tracks a (.fresh now) (.off (seconds 30)) :=
  ⟨rfl, rfl, rfl, rfl, rfl, rfl, rfl, rfl, rfl, rfl, rfl, rfl, rfl, rfl, rfl, rfl⟩

theorem Db.flowRow_putFlow (db : Db) (queue q : String) (row : QueueFlow) :
    (db.putFlow queue row).flowRow q = if q = queue then row else db.flowRow q := by
  simp only [Db.flowRow, Db.putFlow, Table.get?_put]
  split_ifs <;> rfl

theorem Db.flowRow_of_found {queue : String} (found : db.queueFlow.get? queue = some row) : db.flowRow queue = row := by
  simp [Db.flowRow, found]

/-- A queue without a row has the defaults, whenever they are taken. -/
theorem Db.flowRow_getD (db : Db) (queue : String) (now : Time) :
    Alike (db.flowRow queue) ((db.queueFlow.get? queue).getD (.fresh now)) := by
  unfold Db.flowRow
  cases db.queueFlow.get? queue with
  | none => exact ⟨none, none, none, now, rfl⟩
  | some row => exact .refl row

end Tracking

section Settles

variable {id : Uuid} {new : JobRow}

/-- What the attempt that finished the job took, as the trigger reads it. -/
def tookMs (env : Env) (new : JobRow) (db : Db) : Option ℤ :=
  (new.finishedByAttemptId.bind db.attempts.get?).map fun a => roundHalfAway (env.now - a.claimedAt) 1000

/-- A window that is counted: what it starts with and holds after a sample. -/
theorem feed_counted {α : Type} {w : Option (Window Time α)} {start : Option Time} (env : Env) (width : ℤ) (x : α)
    (tracks : start = w.map (·.start)) :
    (windowElapsed env start width = true → feed (seconds width) env.now x w = ⟨env.now, [x]⟩) ∧
    (windowElapsed env start width = false → (feed (seconds width) env.now x w).samples = taken w ++ [x] ∧
      start = some (feed (seconds width) env.now x w).start) := by
  cases w with
  | none =>
    subst tracks
    exact ⟨fun _ => rfl, fun running => nomatch running⟩
  | some w =>
    subst tracks
    simp only [feed, Option.map_some, windowElapsed, decide_eq_true_eq, decide_eq_false_iff_not]
    constructor
    · intro past
      rw [if_pos past]
    · intro running
      rw [if_neg running]
      exact ⟨rfl, rfl⟩

theorem rateWindow_tracks {failed : Bool} {e : Ending} {start : Option Time} {failures successes : ℤ} {trip : Bool}
    (tracks : Tracks env.arithmetic row b) (same : e.failed = failed)
    (run : rateWindow env failed row = .ok ((start, failures, successes), trip)) :
    start = (b.listen env.now e).sampled.map (·.start) ∧
      failures = ((taken (b.listen env.now e).sampled).count true : ℤ) ∧
      successes = ((taken (b.listen env.now e).sampled).count false : ℤ) ∧
      trip = (failed && b.rate.any fun rule => (b.listen env.now e).sampled.any rule.trips) := by
  unfold rateWindow at run
  cases config : row.breakerRate with
  | none =>
    have rate : b.rate = none := by rw [tracks.rate, config, Option.map_none]
    simp only [config] at run
    cases run
    simp only [Breaker.listen, rate, Option.any_none, Bool.and_false, and_true]
    exact ⟨tracks.sampledStart, tracks.failures, tracks.clean⟩
  | some config' =>
    have rate : b.rate = some (config'.rule env.arithmetic) := by rw [tracks.rate, config, Option.map_some]
    obtain ⟨fresh, joined⟩ := feed_counted env config'.windowSeconds e.failed tracks.sampledStart
    have sampled : (b.listen env.now e).sampled = some (feed (seconds config'.windowSeconds) env.now e.failed b.sampled) := by
      simp only [Breaker.listen, rate]
      rfl
    have total (w : Window Time Bool) : ((w.samples.count true : ℕ) : ℤ) + ((w.samples.count false : ℕ) : ℤ) =
        (w.samples.length : ℤ) := by
      have := List.count_true_add_count_false w.samples
      omega
    simp only [config, seq_eq_ok] at run
    obtain ⟨window, step, run⟩ := run
    rw [sampled]
    generalize fed : feed (seconds config'.windowSeconds) env.now e.failed b.sampled = w at fresh joined
    have counted : window.1 = some w.start ∧ window.2.1 = ((w.samples.count true : ℕ) : ℤ) ∧
        window.2.2 = ((w.samples.count false : ℕ) : ℤ) := by
      split at step
      · rename_i past
        cases step
        obtain rfl := fresh past
        cases failed <;> simp [same]
      · rename_i running
        have running := eq_false_of_ne_true running
        obtain ⟨samples, at'⟩ := joined running
        rw [samples, ← at', List.count_append, List.count_append, Nat.cast_add, Nat.cast_add, ← tracks.failures,
          ← tracks.clean]
        cases failed with
        | true =>
          simp only [if_true, seq_eq_ok, int4_eq_ok] at step
          obtain ⟨n, ⟨-, rfl⟩, done⟩ := step
          cases done
          simp [same]
        | false =>
          simp only [Bool.false_eq_true, if_false, seq_eq_ok, int4_eq_ok] at step
          obtain ⟨n, ⟨-, rfl⟩, done⟩ := step
          cases done
          simp [same]
    obtain ⟨start', failures', successes'⟩ := window
    obtain ⟨rfl, rfl, rfl⟩ := counted
    cases failed with
    | true =>
      simp only [if_true, seq_eq_ok, int4_eq_ok] at run
      obtain ⟨n, ⟨-, rfl⟩, done⟩ := run
      cases done
      refine ⟨rfl, rfl, rfl, ?_⟩
      simp [rate, RateRule.trips, BreakerRate.rule, total]
    | false =>
      cases run
      exact ⟨rfl, rfl, rfl, rfl⟩

theorem latencyWindow_tracks {e : Ending} {start : Option Time} {sum count : ℤ} {trip : Bool}
    (tracks : Tracks env.arithmetic row b) (took : e.latency = tookMs env new db)
    (run : latencyWindow env new row db = .ok ((start, sum, count), trip)) :
    start = (b.listen env.now e).timings.map (·.start) ∧ sum = (taken (b.listen env.now e).timings).sum ∧
      count = ((taken (b.listen env.now e).timings).length : ℤ) ∧
      trip = (e.latency.isSome && b.latency.any fun rule => (b.listen env.now e).timings.any rule.trips) := by
  unfold latencyWindow at run
  cases config : row.breakerLatency with
  | none =>
    have latency : b.latency = none := by rw [tracks.latency, config, Option.map_none]
    simp only [config] at run
    cases run
    simp only [Breaker.listen, latency, Option.any_none, Bool.and_false, and_true]
    exact ⟨tracks.timedStart, tracks.sum, tracks.count⟩
  | some config' =>
    have latency : b.latency = some config'.rule := by rw [tracks.latency, config, Option.map_some]
    simp only [config] at run
    cases attempt : new.finishedByAttemptId.bind db.attempts.get? with
    | none =>
      have unknown : e.latency = none := by rw [took, tookMs, attempt, Option.map_none]
      simp only [attempt] at run
      cases run
      simp only [Breaker.listen, latency, unknown, Option.isSome_none, Bool.false_and, and_true]
      exact ⟨tracks.timedStart, tracks.sum, tracks.count⟩
    | some a =>
      have known : e.latency = some (roundHalfAway (env.now - a.claimedAt) 1000) := by rw [took, tookMs, attempt, Option.map_some]
      simp only [attempt] at run
      generalize roundHalfAway (env.now - a.claimedAt) 1000 = ms at known run
      obtain ⟨fresh, joined⟩ := feed_counted env config'.windowSeconds ms tracks.timedStart
      have timings : (b.listen env.now e).timings = some (feed (seconds config'.windowSeconds) env.now ms b.timings) := by
        simp only [Breaker.listen, latency, known]
        rfl
      rw [timings]
      generalize fed : feed (seconds config'.windowSeconds) env.now ms b.timings = w at fresh joined
      split at run
      · rename_i past
        cases run
        obtain rfl := fresh past
        simp [taken, latency, known, LatencyRule.trips, BreakerLatency.rule]
      · rename_i running
        obtain ⟨samples, at'⟩ := joined (eq_false_of_ne_true running)
        simp only [seq_eq_ok, int4_eq_ok] at run
        obtain ⟨n, ⟨-, rfl⟩, done⟩ := run
        cases done
        refine ⟨at', ?_, ?_, ?_⟩
        · rw [tracks.sum, taken_some, samples, List.sum_append, List.sum_singleton]
        · rw [tracks.count, taken_some, samples, List.length_append]
          simp
        · rw [tracks.sum, tracks.count, known, latency]
          simp [LatencyRule.trips, BreakerLatency.rule, samples]

/-- A call writes the row of one queue. -/
def WritesFlow (queue : String) (row : QueueFlow) (db db' : Db) : Prop :=
  ∀ q, db'.flowRow q = if q = queue then row else db.flowRow q

theorem writes_putFlow (db : Db) (queue : String) (row : QueueFlow) : WritesFlow queue row db (db.putFlow queue row) :=
  fun q => Db.flowRow_putFlow db queue q row

theorem writes_same (db : Db) (queue : String) : WritesFlow queue (db.flowRow queue) db db := by
  intro q
  split_ifs with same
  · rw [same]
  · rfl

theorem settleProbe_tracks {e : Ending} (failed : e.failed = decide (new.status = .failed))
    (run : settleProbe env id new row db = .ok db') (armed : b.threshold ≠ none) (probing : b.phase = .probing)
    (tracks : Tracks env.arithmetic row b) :
    ∃ row', Tracks env.arithmetic row' (b.settle env.now e) ∧ WritesFlow new.queue row' db db' := by
  obtain ⟨threshold, armed⟩ := Option.ne_none_iff_exists'.mp armed
  unfold settleProbe at run
  simp only [Breaker.settle, armed, probing]
  split at run
  · rename_i lost
    cases run
    rw [if_pos (by simp [failed, lost])]
    refine ⟨_, ?_, writes_putFlow db _ _⟩
    exact { tracks with
      phase := rfl, trippedAt := rfl, successes := rfl
      openings := congrArg (· + 1) tracks.openings }
  · rename_i kept
    rw [if_neg (by simp [failed, kept])]
    simp only [seq_eq_ok, int4_eq_ok] at run
    obtain ⟨n, ⟨-, rfl⟩, run⟩ := run
    split at run
    · rename_i enough
      cases run
      rw [if_pos (by rwa [tracks.needed, tracks.successes])]
      refine ⟨_, ?_, writes_putFlow db _ _⟩
      exact { tracks with
        phase := rfl, successes := rfl, streak := rfl, sampledStart := rfl, failures := rfl, clean := rfl
        timedStart := rfl, sum := rfl, count := rfl }
    · rename_i few
      cases run
      rw [if_neg (by rwa [tracks.needed, tracks.successes])]
      refine ⟨_, ?_, writes_putFlow db _ _⟩
      exact { tracks with successes := congrArg (· + 1) tracks.successes }

theorem settleClosed_tracks {e : Ending} {threshold : ℤ} (failed : e.failed = decide (new.status = .failed))
    (took : e.latency = tookMs env new db) (run : settleClosed env id new row threshold db = .ok db')
    (armed : b.threshold = some threshold) (closed : b.phase = .closed) (here : db.flowRow new.queue = row)
    (tracks : Tracks env.arithmetic row b) :
    ∃ row', Tracks env.arithmetic row' (b.settle env.now e) ∧ WritesFlow new.queue row' db db' := by
  simp only [Breaker.settle, armed, closed]
  simp only [settleClosed, seq_eq_ok] at run
  obtain ⟨⟨⟨latencyStart, latencySum, latencyCount⟩, latencyTrip⟩, latency, n, counted, ⟨⟨windowStart, windowFailures,
    windowSuccesses⟩, rateTrip⟩, rate, run⟩ := run
  obtain ⟨timedStart, sum, count, slow⟩ := latencyWindow_tracks tracks took latency
  obtain ⟨sampledStart, failures, clean, high⟩ := rateWindow_tracks tracks failed rate
  have streak' : n = (streak (b.listen env.now e).heard : ℤ) := by
    change n = ((streak (b.heard ++ [e.failed]) : ℕ) : ℤ)
    rw [failed]
    by_cases lost : new.status = .failed
    · simp only [lost, decide_true, if_true, int4_eq_ok] at counted ⊢
      rw [streak_failed, ← counted.2, tracks.streak]
      push_cast
      rfl
    · simp only [lost, decide_false, Bool.false_eq_true, if_false] at counted ⊢
      cases counted
      rw [streak_succeeded]
      rfl
  have alarm : (b.listen env.now e).alarmed threshold e =
      ((decide (decide (new.status = .failed) = true ∧ threshold ≤ n) || rateTrip) || latencyTrip) := by
    rw [slow, high, streak', ← failed, Breaker.alarmed]
    congr 2
    rw [Bool.decide_and, Bool.decide_eq_true]
  have fed : Tracks env.arithmetic { row with
      breakerFailureStreak := n, breakerWindowStart := windowStart, breakerWindowFailures := windowFailures
      breakerWindowSuccesses := windowSuccesses, breakerLatencyWindowStart := latencyStart
      breakerLatencySumMs := latencySum, breakerLatencyCount := latencyCount } (b.listen env.now e) :=
    { tracks with
      streak := streak', sampledStart := sampledStart, failures := failures, clean := clean
      timedStart := timedStart, sum := sum, count := count }
  rw [← alarm] at run
  split at run
  · rename_i alarmed
    simp only [seq_eq_ok] at run
    obtain ⟨total, -, finish⟩ := run
    cases finish
    rw [if_pos alarmed]
    refine ⟨_, ?_, writes_putFlow db _ _⟩
    exact { fed with phase := rfl, trippedAt := rfl, openings := congrArg (· + 1) fed.openings }
  · rename_i quiet
    rw [if_neg quiet]
    split at run
    · rename_i same
      cases run
      refine ⟨row, ?_, ?_⟩
      · rw [← same]
        exact fed
      · rw [← here]
        exact writes_same db _
    · cases run
      exact ⟨_, fed.alike ⟨_, _, _, _, rfl⟩, writes_putFlow db _ _⟩

/-- The trigger on a job that failed or succeeded tells the breaker of its queue how it ended. -/
theorem breakerOnSettle_tracks {e : Ending} (failed : e.failed = decide (new.status = .failed))
    (took : e.latency = tookMs env new db) (run : breakerOnSettle env id new db = .ok db')
    (tracks : Tracks env.arithmetic (db.flowRow new.queue) b) :
    ∃ row', Tracks env.arithmetic row' (b.settle env.now e) ∧ WritesFlow new.queue row' db db' := by
  unfold breakerOnSettle at run
  split at run
  · rename_i missing
    cases run
    have off : b.threshold = none := by rw [tracks.threshold, Db.flowRow, missing]; rfl
    refine ⟨_, ?_, writes_same db _⟩
    simpa only [Breaker.settle, off] using tracks
  · rename_i flow found
    have here := Db.flowRow_of_found found
    rw [here] at tracks
    split at run
    · rename_i off
      cases run
      have off : b.threshold = none := by rw [tracks.threshold, off]
      refine ⟨_, ?_, writes_same db _⟩
      rw [here]
      simpa only [Breaker.settle, off] using tracks
    · rename_i threshold armed
      have armed : b.threshold = some threshold := by rw [tracks.threshold, armed]
      split at run
      · rename_i half
        have probing : b.phase = .probing := by rw [tracks.phase, half]; rfl
        exact settleProbe_tracks failed run (by simp [armed]) probing tracks
      · rename_i opened
        cases run
        have opened : b.phase = .opened := by rw [tracks.phase, opened]; rfl
        refine ⟨_, ?_, writes_same db _⟩
        rw [here]
        simpa only [Breaker.settle, armed, opened] using tracks
      · rename_i closed
        have closed : b.phase = .closed := by rw [tracks.phase, closed]; rfl
        exact settleClosed_tracks failed took run armed closed here tracks

/-- The trigger writes the row of the job's queue only. -/
theorem breakerOnSettle_writes (run : breakerOnSettle env id new db = .ok db') : ∃ row', WritesFlow new.queue row' db db' := by
  unfold breakerOnSettle at run
  split at run
  · cases run
    exact ⟨_, writes_same db _⟩
  · split at run
    · cases run
      exact ⟨_, writes_same db _⟩
    · split at run
      · unfold settleProbe at run
        split at run
        · cases run
          exact ⟨_, writes_putFlow db _ _⟩
        · obtain ⟨probes, -, run⟩ := seq_eq_ok.mp run
          split at run <;> cases run <;> exact ⟨_, writes_putFlow db _ _⟩
      · cases run
        exact ⟨_, writes_same db _⟩
      · simp only [settleClosed, seq_eq_ok] at run
        obtain ⟨latency, -, streak, -, rate, -, run⟩ := run
        split at run
        · obtain ⟨total, -, run⟩ := seq_eq_ok.mp run
          cases run
          exact ⟨_, writes_putFlow db _ _⟩
        · split at run <;> cases run
          · exact ⟨_, writes_same db _⟩
          · exact ⟨_, writes_putFlow db _ _⟩

end Settles

section Statements

theorem seconds_double (n : ℤ) : seconds (2 * n) = seconds n + seconds n := by
  unfold seconds
  omega

/-- The gate of a claim asks the breaker of the queue. -/
theorem breakerGate_tracks {wait : Option ℤ} (run : breakerGate env queue db = .ok (wait, db'))
    (tracks : Tracks a (db.flowRow queue) b) : ∃ row', Tracks a row' (b.ask env.now) ∧ WritesFlow queue row' db db' := by
  unfold breakerGate at run
  split at run
  · rename_i missing
    cases run
    have off : b.threshold = none := by rw [tracks.threshold, Db.flowRow, missing]; rfl
    refine ⟨_, ?_, writes_same db _⟩
    simpa only [Breaker.ask, off, Option.isNone_none, if_true] using tracks
  · rename_i flow found
    have here := Db.flowRow_of_found found
    rw [here] at tracks
    have stays (same : b.ask env.now = b) : ∃ row', Tracks a row' (b.ask env.now) ∧ WritesFlow queue row' db db := by
      refine ⟨_, ?_, writes_same db _⟩
      rwa [here, same]
    split at run
    · rename_i passes
      cases run
      apply stays
      unfold Breaker.ask
      obtain off | closed := passes
      · rw [tracks.threshold, if_pos off]
      · have closed : b.phase = .closed := by rw [tracks.phase, closed]; rfl
        simp only [closed, ite_self]
    · rename_i held
      rw [not_or] at held
      have armed : ¬b.threshold.isNone = true := by rw [tracks.threshold]; exact held.1
      dsimp only at run
      split at run
      · rename_i tripped opened since
        have opened : b.phase = .opened := by rw [tracks.phase, opened]; rfl
        have since : b.trippedAt = some tripped := by rw [tracks.trippedAt, since]
        split at run
        · rename_i early
          simp only [seq_eq_ok] at run
          obtain ⟨_, -, finish⟩ := run
          cases finish
          apply stays
          have hot : ¬tripped + b.cooldown ≤ env.now := by
            rw [tracks.cooldown]
            exact not_le.mpr (sub_pos.mp early)
          simp only [Breaker.ask, if_neg armed, opened, since, if_neg hot]
        · rename_i late
          cases run
          have cool : tripped + b.cooldown ≤ env.now := by
            rw [tracks.cooldown]
            exact sub_nonpos.mp (not_lt.mp late)
          refine ⟨_, ?_, writes_putFlow db _ _⟩
          simp only [Breaker.ask, if_neg armed, opened, since, if_pos cool]
          exact { tracks with phase := rfl }
      · rename_i tripped half since
        have probing : b.phase = .probing := by rw [tracks.phase, half]; rfl
        have since : b.trippedAt = some tripped := by rw [tracks.trippedAt, since]
        split at run
        · rename_i late
          cases run
          rw [seconds_double, ← tracks.cooldown] at late
          refine ⟨_, ?_, writes_putFlow db _ _⟩
          simp only [Breaker.ask, if_neg armed, probing, since, if_pos late]
          exact { tracks with
            phase := rfl, trippedAt := rfl, successes := rfl, openings := congrArg (· + 1) tracks.openings }
        · rename_i early
          cases run
          rw [seconds_double, ← tracks.cooldown] at early
          apply stays
          simp only [Breaker.ask, if_neg armed, probing, since, if_neg early]
      · rename_i neither nor
        cases run
        apply stays
        unfold Breaker.ask
        rw [if_neg armed]
        split
        · rename_i t opened since
          rw [tracks.phase] at opened
          rw [tracks.trippedAt] at since
          refine absurd since (neither t ?_)
          cases state : flow.breakerState <;> simp_all
        · rename_i t probing since
          rw [tracks.phase] at probing
          rw [tracks.trippedAt] at since
          refine absurd since (nor t ?_)
          cases state : flow.breakerState <;> simp_all
        · rfl

/-- The gate writes the row of its queue only. -/
theorem breakerGate_writes {wait : Option ℤ} (run : breakerGate env queue db = .ok (wait, db')) :
    ∃ row', WritesFlow queue row' db db' := by
  unfold breakerGate at run
  split at run
  · cases run
    exact ⟨_, writes_same db _⟩
  · split at run
    · cases run
      exact ⟨_, writes_same db _⟩
    · dsimp only at run
      split at run
      · split at run
        · obtain ⟨_, -, finish⟩ := seq_eq_ok.mp run
          cases finish
          exact ⟨_, writes_same db _⟩
        · cases run
          exact ⟨_, writes_putFlow db _ _⟩
      · split at run <;> cases run
        · exact ⟨_, writes_putFlow db _ _⟩
        · exact ⟨_, writes_same db _⟩
      · cases run
        exact ⟨_, writes_same db _⟩

/-- What an entry of the log tells the breaker of a queue: how a job of the queue ended, and how long the attempt that
finished it took, as the attempts stand in the statement. -/
def Logged.tells (env : Env) (queue : String) (db : Db) : Logged → List (Signal Time)
  | .update _ old new =>
    if (new.status = .failed ∨ new.status = .succeeded) ∧ new.status ≠ old.status ∧ new.queue = queue then
      [.settled env.now ⟨decide (new.status = .failed), tookMs env new db⟩]
    else []
  | _ => []

/-- Statements one after another, and what they tell the breaker of a queue, each in the state in which it is made. -/
inductive Relays (env : Env) (queue : String) : List Logged → List (Signal Time) → Db → Db → Prop
  | start (db : Db) : Relays env queue [] [] db db
  | statement {log entries : List Logged} {told : List (Signal Time)} {db mid db' : Db}
      (before : Relays env queue log told db mid) (last : ClaimStatement env entries mid db') :
      Relays env queue (log ++ entries) (told ++ entries.flatMap (·.tells env queue mid)) db db'

/-- The row of the queue goes on to say what its breaker holds, when it is told these signals. -/
def Carries (a : Arithmetic) (queue : String) (told : List (Signal Time)) (db db' : Db) : Prop :=
  ∀ b, Tracks a (db.flowRow queue) b → Tracks a (db'.flowRow queue) (b.hearAll told)

variable {entries log : List Logged} {told : List (Signal Time)}

theorem carries_same (same : db'.queueFlow = db.queueFlow) : Carries a queue [] db db' := by
  intro b tracks
  unfold Db.flowRow at tracks ⊢
  rw [same]
  exact tracks

theorem Carries.trans {mid : Db} {later : List (Signal Time)} (first : Carries a queue told db mid)
    (second : Carries a queue later mid db') : Carries a queue (told ++ later) db db' := by
  intro b tracks
  rw [CircuitBreaker.hearAll_append]
  exact second _ (first b tracks)

/-- A statement on jobs tells the breaker of a queue at most how a job of the queue ended. -/
theorem JobStatement.carries (statement : JobStatement env entries db db') (queue : String) :
    Carries env.arithmetic queue (entries.flatMap (·.tells env queue db)) db db' := by
  cases statement with
  | aside jobs meters => exact carries_same (congrArg Meters.flows meters)
  | insert run =>
    obtain ⟨_, _, _, -, -, -, -, -, -, rfl⟩ := insertJob_frame run
    exact carries_same rfl
  | @delete _ _ id old stored run =>
    simp only [deleteJob, seq_eq_ok] at run
    obtain ⟨-, -, counts, -, done⟩ := run
    obtain ⟨counters, frame⟩ := countDeleted_frame env old.toJobRow { db with
      jobs := db.jobs.remove id
      attempts := db.attempts.keep fun _ a => a.jobId ≠ id
      deps := db.deps.filter fun e => e.1 ≠ id }
    rw [frame] at done
    cases done
    exact carries_same rfl
  | @update _ _ id old new stored kept run =>
    simp only [writeJob, seq_eq_ok] at run
    obtain ⟨-, -, job, -, -, -, settled, breaker, counts, -, done⟩ := run
    obtain ⟨counters, frame⟩ := countUpdated_frame env old.toJobRow new settled
    rw [frame] at done
    have flows : db'.queueFlow = settled.queueFlow := by cases done; rfl
    have after (q : String) : db'.flowRow q = settled.flowRow q := by rw [Db.flowRow, Db.flowRow, flows]
    simp only [List.flatMap_cons, List.flatMap_nil, List.append_nil, Logged.tells]
    intro b tracks
    rw [after]
    by_cases ends : (new.status = .failed ∨ new.status = .succeeded) ∧ new.status ≠ old.status
    · rw [if_pos (by simpa using ends)] at breaker
      by_cases same : new.queue = queue
      · have tracks : Tracks env.arithmetic ((db.putJob id job).flowRow new.queue) b := by rw [same]; exact tracks
        let e : Ending := ⟨decide (new.status = .failed), tookMs env new db⟩
        have took : e.latency = tookMs env new (db.putJob id job) := rfl
        obtain ⟨row', tracked, writes⟩ := breakerOnSettle_tracks (e := e) rfl took breaker tracks
        rw [writes, if_pos same.symm, if_pos ⟨ends.1, ends.2, same⟩]
        exact tracked
      · obtain ⟨row', writes⟩ := breakerOnSettle_writes breaker
        rw [writes, if_neg (Ne.symm same), if_neg fun all => same all.2.2]
        exact tracks
    · rw [if_neg (by simpa using ends)] at breaker
      cases breaker
      rw [if_neg fun all => ends ⟨all.1, all.2.1⟩]
      exact tracks

/-- A bucket is filled and emptied without the breaker. -/
theorem flowConsumeQueue_alike {rate burst want : ℤ} {scale : ℚ} {grant : Grant}
    (run : flowConsumeQueue env q rate burst scale want db = .ok (grant, db')) (queue : String) :
    Alike (db.flowRow queue) (db'.flowRow queue) := by
  have filled := Db.flowRow_getD db q env.now
  simp only [flowConsumeQueue, seq_eq_ok] at run
  obtain ⟨available, -, run⟩ := run
  split at run
  · obtain ⟨wait, -, finish⟩ := seq_eq_ok.mp run
    cases finish
    rw [Db.flowRow_putFlow]
    split_ifs with same
    · rw [same]
      exact filled
    · exact .refl _
  · cases run
    rw [Db.flowRow_putFlow, Db.flowRow_putFlow]
    split_ifs with same
    · rw [same]
      exact filled.edited _ _ _ _
    · exact .refl _

theorem ClaimStatement.carries (statement : ClaimStatement env entries db db') (queue : String) :
    Carries env.arithmetic queue (entries.flatMap (·.tells env queue db)) db db' := by
  cases statement with
  | job statement => exact statement.carries queue
  | consume stored rated run => exact fun b tracks => tracks.alike (flowConsumeQueue_alike run queue)
  | key key =>
    obtain ⟨keys, frame⟩ := flowKeyAdmit_frame env key db
    exact carries_same (by rw [frame])

/-- The gate of a claim on the queue asks its breaker, that of another claim does not. -/
theorem breakerGate_carries {wait : Option ℤ} (run : breakerGate env q db = .ok (wait, db')) (queue : String) :
    Carries a queue (if q = queue then [.claimed env.now] else []) db db' := by
  intro b tracks
  split_ifs with same
  · subst same
    obtain ⟨row', tracked, writes⟩ := breakerGate_tracks run tracks
    rw [writes, if_pos rfl]
    exact tracked
  · obtain ⟨row', writes⟩ := breakerGate_writes run
    rw [writes, if_neg (Ne.symm same)]
    exact tracks

namespace Relays

theorem of_sequence (statements : Sequence (ClaimStatement env) log db db') (queue : String) :
    ∃ told, Relays env queue log told db db' :=
  statements.induction_on (P := fun log db' => ∃ told, Relays env queue log told db db') ⟨[], .start db⟩
    fun ⟨_, before⟩ last => ⟨_, .statement before last⟩

theorem sequence (relays : Relays env queue log told db db') : Sequence (ClaimStatement env) log db db' := by
  induction relays with
  | start db => exact .nil db
  | statement _ last ih => exact .snoc ih last

theorem carries (relays : Relays env queue log told db db') : Carries env.arithmetic queue told db db' := by
  induction relays with
  | start db => exact carries_same rfl
  | statement _ last ih => exact ih.trans (last.carries queue)

/-- Statements tell only how work ends, and when. -/
theorem settles (relays : Relays env queue log told db db') {s : Signal Time} (member : s ∈ told) :
    ∃ e, s = .settled env.now e := by
  induction relays with
  | start => cases member
  | statement _ last ih =>
    obtain old | new := List.mem_append.mp member
    · exact ih old
    · obtain ⟨entry, -, new⟩ := List.mem_flatMap.mp new
      cases entry with
      | insert | delete => cases new
      | update id old row =>
        simp only [Logged.tells] at new
        split_ifs at new
        · exact ⟨_, List.mem_singleton.mp new⟩
        · cases new

end Relays

end Statements

section Calls

/-- What a call tells the breaker of a queue itself: what its operator says, or the request of a claim. -/
def Command.tells (queue : String) (env : Env) : Command → List (Signal Time)
  | .setBreakerConfig q threshold cooldown successes =>
    if q = queue then [.configured threshold (seconds (cooldown.getD 30)) (successes.getD 1)] else []
  | .setBreakerRate q ratio window volume =>
    if q = queue then
      [.rated (ratio.map fun r => BreakerRate.rule env.arithmetic ⟨r, window.getD 0, volume.getD 0⟩)] else []
  | .setBreakerLatency q threshold window volume =>
    if q = queue then [.timed (threshold.map fun t => ⟨t, seconds (window.getD 0), volume.getD 0⟩)] else []
  | .tripBreaker q => if q = queue then [.tripped env.now] else []
  | .forceCloseBreaker q => if q = queue then [.forced] else []
  | .claimJobs args | .claimJobsWithPolicies args _ => if args.queue = queue then [.claimed env.now] else []
  | _ => []

/-- A claim comes to its statements through the gate of its queue's breaker; other calls begin with them. -/
def Gated (env : Env) (command : Command) (db gated : Db) : Prop :=
  match command.claim with
  | none => gated = db
  | some c => ∃ wait, breakerGate env c.args.queue db = .ok (wait, gated)

/-- All that one call tells the breaker of a queue: what it tells itself, and then how jobs end in its statements. -/
inductive Tells (queue : String) (env : Env) (command : Command) : List Logged → List (Signal Time) → Db → Db → Prop
  | statements {log : List Logged} {told : List (Signal Time)} {db gated db' : Db} (gate : Gated env command db gated)
      (relays : Relays env queue log told gated db') :
      Tells queue env command log (command.tells queue env ++ told) db db'
  | configures {db db' : Db} (configures : Configures db db') :
      Tells queue env command [] (command.tells queue env) db db'

variable {command : Command} {s : Signal Time} {entries : List Logged} {last : List (Signal Time)}

theorem updateBreaker_flows {f : QueueFlow → QueueFlow} (run : updateBreaker env q f db = .ok db') (r : String) :
    db'.flowRow r = if r = q then { f (db.flowRow q) with updatedAt := env.now } else db.flowRow r := by
  unfold updateBreaker at run
  split at run
  · cases run
  · rename_i flow found
    cases run
    rw [Db.flowRow_putFlow, Db.flowRow_of_found (Option.filter_eq_some_iff.mp found).1]

theorem upsertFlow_alike (env : Env) (q : String) (f : QueueFlow → QueueFlow) (db : Db) (r : String) :
    ∃ row, Alike (db.flowRow q) row ∧ ∃ now, (upsertFlow env q f db).2.flowRow r = if r = q then { f row with updatedAt := now } else db.flowRow r := by
  unfold upsertFlow
  have filled := Db.flowRow_getD db q env.now
  split
  · rename_i missing
    rw [missing] at filled
    refine ⟨_, filled, (f (.fresh env.now)).updatedAt, ?_⟩
    exact Db.flowRow_putFlow _ _ _ _
  · rename_i flow found
    refine ⟨flow, ?_, env.now, Db.flowRow_putFlow _ _ _ _⟩
    rw [Db.flowRow_of_found found]
    exact .refl _

theorem carries_upsert {f : QueueFlow → QueueFlow}
    (edit : ∀ {row : QueueFlow} {b : Breaker Time} (now : Time), Tracks a row b →
      Tracks a { f row with updatedAt := now } (b.hear s)) :
    Carries a queue (if q = queue then [s] else []) db (upsertFlow env q f db).2 := by
  intro b tracks
  obtain ⟨row, alike, now, flows⟩ := upsertFlow_alike env q f db queue
  rw [flows]
  by_cases same : q = queue
  · subst same
    rw [if_pos rfl, if_pos rfl]
    exact edit now (tracks.alike alike)
  · rw [if_neg (Ne.symm same), if_neg same]
    exact tracks

/-- An update of an armed row reaches its breaker. -/
theorem carries_update {f : QueueFlow → QueueFlow} (run : updateBreaker env q f db = .ok db')
    (edit : ∀ {row : QueueFlow} {b : Breaker Time} (now : Time), Tracks a row b →
      Tracks a { f row with updatedAt := now } (b.hear s)) :
    Carries a queue (if q = queue then [s] else []) db db' := by
  intro b tracks
  rw [updateBreaker_flows run]
  by_cases same : q = queue
  · subst same
    rw [if_pos rfl, if_pos rfl]
    exact edit env.now tracks
  · rw [if_neg (Ne.symm same), if_neg same]
    exact tracks

theorem setBreakerConfig_carries {threshold cooldown successes : Option ℤ} {answer : Upsert}
    (run : setBreakerConfig env q threshold cooldown successes db = .ok (answer, db')) (queue : String) :
    Carries a queue ((Command.setBreakerConfig q threshold cooldown successes).tells queue env) db db' := by
  simp only [setBreakerConfig, seq_eq_ok] at run
  obtain ⟨-, -, -, -, -, cools, -, probes, finish⟩ := run
  have same : (upsertFlow env q (fun flow => { flow with
      breakerFailureThreshold := threshold, breakerCooldownSeconds := cooldown
      breakerHalfOpenSuccesses := successes }) db).2 = db' := congrArg Prod.snd (Except.ok.inj finish)
  rw [← same]
  refine carries_upsert fun now tracks => ?_
  exact { tracks with threshold := rfl, cooldown := rfl, needed := rfl }

theorem setBreakerRate_carries {ratio : Option ℚ} {window volume : Option ℤ}
    (run : setBreakerRate env q ratio window volume db = .ok db') (queue : String) :
    Carries env.arithmetic queue ((Command.setBreakerRate q ratio window volume).tells queue env) db db' := by
  simp only [setBreakerRate, seq_eq_ok] at run
  obtain ⟨-, -, -, -, run⟩ := run
  refine carries_update run fun now tracks => ?_
  have rate : (ratio.map fun r => BreakerRate.rule env.arithmetic ⟨r, window.getD 0, volume.getD 0⟩) =
      (ratio.map fun r => (⟨r, window.getD 0, volume.getD 0⟩ : BreakerRate)).map (·.rule env.arithmetic) := by
    rw [Option.map_map]
    rfl
  exact { tracks with rate := rate, sampledStart := rfl, failures := rfl, clean := rfl }

theorem setBreakerLatency_carries {threshold window volume : Option ℤ}
    (run : setBreakerLatency env q threshold window volume db = .ok db') (queue : String) :
    Carries a queue ((Command.setBreakerLatency q threshold window volume).tells queue env) db db' := by
  simp only [setBreakerLatency, seq_eq_ok] at run
  obtain ⟨-, -, -, -, run⟩ := run
  refine carries_update run fun now tracks => ?_
  have latency : (threshold.map fun t => (⟨t, seconds (window.getD 0), volume.getD 0⟩ : LatencyRule Time)) =
      (threshold.map fun t => (⟨t, window.getD 0, volume.getD 0⟩ : BreakerLatency)).map (·.rule) := by
    rw [Option.map_map]
    rfl
  exact { tracks with latency := latency, timedStart := rfl, sum := rfl, count := rfl }

theorem tripBreaker_carries (run : tripBreaker env q db = .ok db') (queue : String) :
    Carries a queue ((Command.tripBreaker q).tells queue env) db db' := by
  refine carries_update run fun now tracks => ?_
  exact { tracks with
    phase := rfl, trippedAt := rfl, successes := rfl, sampledStart := rfl, failures := rfl, clean := rfl
    timedStart := rfl, sum := rfl, count := rfl, openings := congrArg (· + 1) tracks.openings }

theorem forceCloseBreaker_carries (run : forceCloseBreaker env q db = .ok db') (queue : String) :
    Carries a queue ((Command.forceCloseBreaker q).tells queue env) db db' := by
  refine carries_update run fun now tracks => ?_
  exact { tracks with
    phase := rfl, successes := rfl, streak := rfl, sampledStart := rfl, failures := rfl, clean := rfl
    timedStart := rfl, sum := rfl, count := rfl }

/-- Configuration that leaves the breaker columns alone. -/
theorem carries_alike (alike : Alike (db.flowRow queue) (db'.flowRow queue)) : Carries a queue [] db db' :=
  fun _ tracks => tracks.alike alike

theorem configures_alike (run : command.exec env db = .ok db') (quiet : match command with
      | .ensureQueue .. | .pauseQueue .. | .resumeQueue .. | .setConcurrencyLimit .. | .setFlowLimit .. | .setPriorityAging .. =>
        True
      | _ => False) (queue : String) : Alike (db.flowRow queue) (db'.flowRow queue) := by
  have same (flows : db'.queueFlow = db.queueFlow) : Alike (db.flowRow queue) (db'.flowRow queue) := by
    unfold Db.flowRow
    rw [flows]
    exact .refl _
  cases command with
  | ensureQueue name profile =>
    obtain ⟨answer, run⟩ := map_snd_eq_ok.mp run
    simp only [ensureQueue] at run
    split at run
    · cases run
    · simp only [seq_eq_ok] at run
      obtain ⟨-, -, -, -, -, -, run⟩ := run
      split at run <;> obtain ⟨q, -, run⟩ := seq_eq_ok.mp run
      · cases run
        exact same rfl
      · split at run <;> cases run <;> exact same rfl
  | pauseQueue name reason =>
    obtain ⟨answer, run⟩ := map_snd_eq_ok.mp run
    unfold pauseQueue at run
    split at run
    · cases run
    · split at run <;> cases run <;> exact same rfl
  | resumeQueue name =>
    obtain ⟨answer, run⟩ := map_snd_eq_ok.mp run
    unfold resumeQueue at run
    split at run
    · cases run
    · split at run
      · cases run
        exact same rfl
      · dsimp only at run
        split at run <;> cases run
        · exact same rfl
        · rw [Db.flowRow_putFlow]
          split_ifs with here
          · rw [here]
            exact (Db.flowRow_getD db name env.now).edited _ _ _ _
          · exact .refl _
  | setConcurrencyLimit key limit =>
    obtain ⟨answer, run⟩ := map_snd_eq_ok.mp run
    simp only [setConcurrencyLimit, seq_eq_ok] at run
    obtain ⟨-, -, -, -, run⟩ := run
    split at run
    · cases run
      exact same rfl
    · split at run <;> cases run <;> exact same rfl
  | setFlowLimit key rate burst =>
    obtain ⟨answer, run⟩ := map_snd_eq_ok.mp run
    simp only [setFlowLimit, seq_eq_ok] at run
    obtain ⟨-, -, -, -, -, -, run⟩ := run
    split at run
    · cases run
      exact same rfl
    · split at run <;> cases run <;> exact same rfl
  | setPriorityAging q aging =>
    obtain ⟨answer, run⟩ := map_snd_eq_ok.mp run
    simp only [setPriorityAging, seq_eq_ok] at run
    obtain ⟨-, -, -, -, finish⟩ := run
    obtain ⟨row, alike, now, flows⟩ := upsertFlow_alike env q
      (fun flow => { flow with priorityAgingSeconds := aging }) db queue
    rw [Except.ok.inj finish] at flows
    rw [flows]
    split_ifs with here
    · rw [here]
      exact alike.edited _ _ _ _
    · exact .refl _
  | _ => exact quiet.elim

namespace Tells

/-- What a call tells went on in the statements that it made, or in its configuration. -/
theorem made (tells : Tells queue env command entries last db db') : Made env entries db db' := by
  cases tells with
  | configures configures => exact .inr ⟨rfl, configures⟩
  | statements gate relays =>
    left
    have body : Statements env entries _ db' := relays.sequence.mono .body
    unfold Gated at gate
    split at gate
    · rw [← gate]
      exact body
    · obtain ⟨wait, gate⟩ := gate
      have first : Statements env [] db _ := .single (.gate gate)
      exact first.trans body

/-- What a call tells is told by itself, or ends work. -/
theorem cases_of_mem (tells : Tells queue env command entries last db db') (member : s ∈ last) :
    s ∈ command.tells queue env ∨ ∃ e, s = .settled env.now e := by
  cases tells with
  | configures => exact .inl member
  | statements gate relays => exact (List.mem_append.mp member).imp_right relays.settles

theorem timely (tells : Tells queue env command entries last db db') {now : Time} (member : s ∈ last)
    (at' : s.time = some now) : now = env.now := by
  obtain own | ⟨e, rfl⟩ := tells.cases_of_mem member
  · cases command <;> simp only [Command.tells] at own <;> try contradiction
    all_goals
      split_ifs at own
      all_goals simp_all [Signal.time]
  · exact (Option.some.inj at').symm

end Tells

/-- The breaker of a queue, as its row keeps it, does what one call tells it. -/
theorem Command.exec_tells (run : command.exec env db = .ok db') (queue : String) : ∃ entries last,
    Tells queue env command entries last db db' ∧ Carries env.arithmetic queue last db db' := by
  have acts := (Command.exec_effect run).2.1
  cases command with
  | claimJobs args | claimJobsWithPolicies args hashes =>
    obtain ⟨wait, gated, log, gate, statements⟩ := acts
    obtain ⟨told, relays⟩ := Relays.of_sequence statements queue
    exact ⟨log, _, .statements ⟨wait, gate⟩ relays, (breakerGate_carries gate queue).trans relays.carries⟩
  | ensureQueue | pauseQueue | resumeQueue | setConcurrencyLimit | setFlowLimit | setPriorityAging =>
    have setting : Setting env db db' := acts
    exact ⟨[], _, .configures setting.configures, carries_alike (configures_alike run trivial queue)⟩
  | setBreakerConfig q threshold cooldown successes =>
    have setting : Setting env db db' := acts
    obtain ⟨answer, run⟩ := map_snd_eq_ok.mp run
    exact ⟨[], _, .configures setting.configures, setBreakerConfig_carries run queue⟩
  | setBreakerRate q ratio window volume =>
    have setting : Setting env db db' := acts
    exact ⟨[], _, .configures setting.configures, setBreakerRate_carries run queue⟩
  | setBreakerLatency q threshold window volume =>
    have setting : Setting env db db' := acts
    exact ⟨[], _, .configures setting.configures, setBreakerLatency_carries run queue⟩
  | tripBreaker q =>
    have setting : Setting env db db' := acts
    exact ⟨[], _, .configures setting.configures, tripBreaker_carries run queue⟩
  | forceCloseBreaker q =>
    have setting : Setting env db db' := acts
    exact ⟨[], _, .configures setting.configures, forceCloseBreaker_carries run queue⟩
  | _ =>
    obtain ⟨log, statements⟩ := acts
    obtain ⟨told, relays⟩ := Relays.of_sequence (statements.mono .job) queue
    exact ⟨log, told, .statements rfl relays, relays.carries⟩

end Calls

end Taskq
