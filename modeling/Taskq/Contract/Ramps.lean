import Taskq.Contract.Rates

/-! What a ramp does to the bucket of a queue. The stored arrival time is measured in the intervals at which the tokens
were taken, and it is read at the shorter intervals of later moments. -/
namespace Taskq
open Relational

section Whole

variable {site : Site} {s : System} {env : Env} {command : Command} {db db' : Db}

/-- The buckets of the queues store whole microseconds. -/
def Whole (db : Db) : Prop := ∀ queue x, db.tat queue = some x → ∃ n : ℤ, x = n

theorem Whole.congr (whole : Whole db) (same : db'.tat = db.tat) : Whole db' := by
  unfold Whole
  rw [same]
  exact whole

theorem clampedTat_whole (env : Env) {stored : Option ℚ} (whole : ∀ x, stored = some x → ∃ n : ℤ, x = n) :
    ∃ n : ℤ, clampedTat env stored = n := by
  cases stored with
  | none => exact ⟨env.now, max_self _⟩
  | some x =>
    obtain ⟨n, rfl⟩ := whole x rfl
    exact ⟨max n env.now, (Int.cast_max).symm⟩

theorem Statement.whole {entries : List Logged} (statement : Statement env entries db db')
    (numeric : env.arithmetic = .numeric) (whole : Whole db) : Whole db' := by
  cases statement with
  | gate run => exact whole.congr (breakerGate_tat run)
  | body statement =>
    cases statement with
    | job statement => exact whole.congr (congrArg Prod.fst statement.keeps.1)
    | @consume _ _ queue q rate want grant stored _ run =>
      intro other x there
      by_cases same : other = queue
      · subst same
        have limit : bucketLimit env other q rate db = _ := rfl
        obtain ⟨_, -, -, kept⟩ | ⟨-, -, ⟨-, kept⟩ | ⟨-, -, taken⟩⟩ := flowConsumeQueue_tokens limit run
        · exact whole other x (kept ▸ there)
        · exact whole other x (kept ▸ there)
        · obtain ⟨n, from'⟩ := clampedTat_whole env (whole other)
          obtain ⟨m, moved⟩ := Arithmetic.numeric_interval_whole
            ((min want (tokensLeft env (bucketLimit env other q rate db) (db.tat other)) : ℤ) *
              emissionInterval env.toSite (bucketLimit env other q rate db).ratePerMinute)
          rw [there, Option.some.injEq, from', charge, numeric, moved] at taken
          exact ⟨n + m, by rw [taken, Int.cast_add]⟩
      · exact whole other x ((flowConsumeQueue_others run same).symm.trans there)
    | key key =>
      obtain ⟨keys, frame⟩ := flowKeyAdmit_frame env key db
      rw [frame]
      exact whole

theorem Command.whole (run : command.exec env db = .ok db') (numeric : env.arithmetic = .numeric) (whole : Whole db) :
    Whole db' := by
  obtain ⟨log, statements⟩ | setting := Command.exec_made run
  · exact statements.induction_on (P := fun _ db' => Whole db') whole fun before last => last.whole numeric before
  · exact whole.congr (congrArg Prod.fst setting.buckets)

theorem System.Reachable.whole (reachable : System.Reachable site anyCall s) (numeric : site.arithmetic = .numeric) :
    Whole s.db :=
  reachable.induction (I := fun s => Whole s.db) (fun _ _ _ stored => by cases stored) fun whole _ step =>
    Command.whole step.exec (step.server ▸ numeric) whole

end Whole

section Tokens

variable {env env' : Env} {limit limit' : FlowLimit} {stored : Option ℚ} {n : ℤ}

theorem emissionInterval_digits {site : Site} (numeric : site.arithmetic = .numeric) (rate : ℤ) :
    HasDigits (max 6 (emissionScale rate)) (emissionInterval site rate) := by
  rw [emissionInterval, numeric]
  exact (HasDigits.toDecimal _ _).mono (le_max_right _ _)

/-- The digits of an interval are enough to tell it from numbers below it. -/
theorem emissionInterval_lt {site : Site} {rate : ℤ} (positive : 0 < rate) :
    emissionInterval site rate < 2 * 10 ^ (20 - max 6 (emissionScale rate)) := by
  rcases lt_or_ge rate 60 with slow | fast
  · have scale : emissionScale rate = 16 :=
      quotientScale_sixteen (by exact_mod_cast positive) (by simpa using slow) (by norm_num) (by norm_num)
    rw [scale]
    exact (emissionInterval_le site positive).trans_lt (by norm_num)
  · have fast' : (60 : ℚ) ≤ rate := by exact_mod_cast fast
    have one : emissionInterval site rate ≤ ((1 : ℤ) : ℚ) :=
      Arithmetic.divide_le (by exact_mod_cast positive) (by push_cast; linarith)
    have unit : (1 : ℚ) ≤ 10 ^ (20 - max 6 (emissionScale rate)) := one_le_pow₀ (by norm_num)
    push_cast at one
    linarith

/-- What the tokens of a bucket are a share of has as many digits. -/
theorem room_digits (numeric : env.arithmetic = .numeric) (whole : ∀ x, stored = some x → ∃ n : ℤ, x = n) (burst : ℤ) :
    HasDigits (max 6 (emissionScale limit.ratePerMinute)) ((env.now - clampedTat env stored) / 1000000 +
      emissionInterval env.toSite limit.ratePerMinute * burst) := by
  obtain ⟨n, same⟩ := clampedTat_whole env whole
  have micros : HasDigits 6 ((env.now - clampedTat env stored) / 1000000) := ⟨env.now - n, by rw [same]; norm_num⟩
  exact (micros.mono (le_max_left _ _)).add ((emissionInterval_digits numeric _).mul_int burst)

/-- A bucket holds a token exactly when its wait is over. -/
theorem tokensLeft_pos_iff (numeric : env.arithmetic = .numeric) (rated : 0 < limit.ratePerMinute)
    (whole : ∀ x, stored = some x → ∃ n : ℤ, x = n) : 0 < tokensLeft env limit stored ↔ waitLeft env limit stored ≤ 0 := by
  refine ⟨fun some' => ?_, tokensLeft_pos env rated⟩
  have one := Int.le_floor.mp (Int.add_one_le_iff.mpr some')
  rw [zero_add, Int.cast_one, numeric, Arithmetic.one_le_numeric_divide (emissionInterval_pos env.toSite rated)
    (emissionInterval_lt rated) (room_digits numeric whole _) (emissionInterval_digits numeric _)] at one
  unfold waitLeft
  dsimp only
  linarith

/-- A bucket is full exactly when its stored arrival time has passed. -/
theorem tokensLeft_eq_burst (numeric : env.arithmetic = .numeric) (rated : 0 < limit.ratePerMinute)
    (whole : ∀ x, stored = some x → ∃ n : ℤ, x = n) :
    tokensLeft env limit stored = limit.burst.getD limit.ratePerMinute ↔ ∀ x, stored = some x → x ≤ env.now := by
  have positive := emissionInterval_pos env.toSite rated
  constructor
  · rintro full x rfl
    by_contra ahead
    rw [not_le] at ahead
    obtain ⟨n, rfl⟩ := whole x rfl
    have next : (env.now : ℚ) + 1 ≤ n := by exact_mod_cast ahead
    have same : clampedTat env (some n) = n := max_eq_left (by simpa using ahead.le)
    have long := emissionInterval_le env.toSite rated
    have fine : 16 ≤ quotientScale (max 6 (emissionScale limit.ratePerMinute))
        ((env.now - n) / 1000000 + emissionInterval env.toSite limit.ratePerMinute *
          (limit.burst.getD limit.ratePerMinute : ℤ)) (emissionInterval env.toSite limit.ratePerMinute) := by
      have digits : 16 ≤ emissionScale limit.ratePerMinute :=
        sixteen_le_quotientScale (by norm_num) (by norm_num) (by exact_mod_cast rated)
      exact (digits.trans (le_max_right _ _)).trans (le_max_right _ _)
    have short : tokensLeft env limit (some n) < limit.burst.getD limit.ratePerMinute := by
      rw [tokensLeft, Int.floor_lt, numeric, same]
      refine Arithmetic.numeric_divide_lt positive fine ?_
      linarith
    exact short.ne full
  · intro idle
    refine le_antisymm (tokensLeft_le_burst env rated stored) (Int.le_floor.mpr (Arithmetic.le_divide positive ?_))
    have now' : clampedTat env stored = env.now := by
      cases stored with
      | none => exact max_self _
      | some x => exact max_eq_right (idle x rfl)
    rw [now']
    linarith

/-- A dry bucket whose interval changes meanwhile: after the time to its next token it holds one if and only if the change,
once for every token but one of the burst, is no more than the time that has passed beyond. -/
theorem waitLeft_changed (positive : 0 < emissionInterval env'.toSite limit'.ratePerMinute) {burst : ℤ} (some' : 1 ≤ burst)
    (same : limit.burst = some burst) (same' : limit'.burst = some burst) (dry : 0 < waitLeft env limit stored)
    (positive₀ : 0 < emissionInterval env.toSite limit.ratePerMinute) (later : env'.now = env.now + n * 1000000) :
    waitLeft env' limit' stored ≤ 0 ↔
      (burst - 1) * (emissionInterval env.toSite limit.ratePerMinute - emissionInterval env'.toSite limit'.ratePerMinute) ≤
        n - waitLeft env limit stored := by
  have whole : (1 : ℚ) ≤ burst := by exact_mod_cast some'
  have passed : (env'.now : ℚ) = env.now + n * 1000000 := by rw [later]; push_cast; ring
  unfold waitLeft at dry ⊢
  simp only [same, same', Option.getD_some] at dry ⊢
  generalize emissionInterval env.toSite limit.ratePerMinute = t at positive₀ dry ⊢
  generalize emissionInterval env'.toSite limit'.ratePerMinute = t' at positive ⊢
  have spare : 0 ≤ (burst - 1) * t := mul_nonneg (by linarith) positive₀.le
  have spare' : 0 ≤ (burst - 1) * t' := mul_nonneg (by linarith) positive.le
  have ahead : (env.now : ℚ) < clampedTat env stored := by linarith
  obtain ⟨x, rfl, future⟩ : ∃ x, stored = some x ∧ (env.now : ℚ) < x := by
    cases stored with
    | none => exact absurd ahead (by simp [clampedTat])
    | some x => exact ⟨x, rfl, (lt_max_iff.mp ahead).resolve_right (lt_irrefl _)⟩
  rw [show clampedTat env (some x) = x from max_eq_left future.le] at dry ⊢
  rcases le_total x env'.now with early | late
  · rw [show clampedTat env' (some x) = env'.now from max_eq_right early]
    refine iff_of_true ?_ ?_ <;> linarith
  · rw [show clampedTat env' (some x) = x from max_eq_left late]
    constructor <;> intro h <;> linarith

end Tokens

section Hints

variable {site : Site} {s t : System} {moments : List Moment} {queue : String} {q : Queue} {r : ℤ}

/-- The interval between two tokens of a queue at a moment, in seconds; a ramp stretches it. -/
def rampedInterval (env : Env) (queue : String) (q : Queue) (r : ℤ) (db : Db) : ℚ :=
  emissionInterval env.toSite (bucketLimit env queue q r db).ratePerMinute

/-- On a queue with a rate, whatever its ramp does: a claim that comes exactly when the hint of a throttled one is over
is granted a token if and only if the interval between tokens has not shrunk meanwhile by more, for every token but one
of the burst, than the hint was rounded up; and a bucket that nobody has used for a full window at the full rate is full
if and only if the arrival time that its last user left has passed. -/
theorem ramped_hints (numeric : site.arithmetic = .numeric) (reachable : System.Reachable site anyCall s)
    (trace : System.Trace site anyCall s moments t) (stored : t.db.queues.get? queue = some q)
    (rated : q.claimRatePerMinute = some r) (fits : max 1 (q.claimBurst.getD r) ≤ 2147483647)
    (calm : ∀ m ∈ moments, m.command.claim.all (·.args.queue ≠ queue)) :
    (∀ (env env' : Env) (c c' : ClaimCall) (n : ℤ) (db gated : Db), env.arithmetic = .numeric → env'.arithmetic = .numeric →
      c.args.queue = queue → c'.args.queue = queue →
      db.queues.get? queue = some q → Throttled env c n db s.db → env'.now = env.now + n * 1000000 →
      breakerGate env' queue t.db = .ok (none, gated) → 0 < leeway env' queue q c'.batch gated →
      ((∃ k granted, queueGate env' c'.args q c'.batch gated = .ok (.ok k, granted) ∧ 0 < k) ↔
        ((max 1 (q.claimBurst.getD r) : ℤ) - 1) * (rampedInterval env queue q r db - rampedInterval env' queue q r t.db) ≤
          n - waitLeft env (bucketLimit env queue q r db) (db.tat queue))) ∧
    ∀ env' : Env, env'.arithmetic = .numeric → flowScale env' t.db queue q.rampSeconds = 1 →
      s.clock + (max 1 (q.claimBurst.getD r) : ℤ) * rampedInterval env' queue q r t.db * 1000000 ≤ env'.now →
      (tokensLeft env' (bucketLimit env' queue q r t.db) (t.db.tat queue) = max 1 (q.claimBurst.getD r) ↔
        ∀ x, s.db.tat queue = some x → x ≤ env'.now) := by
  have still := tat_kept reachable.rated trace calm
  have whole := reachable.whole numeric queue
  refine ⟨?_, fun env' numeric' _ _ => ?_⟩
  · rintro env env' c c' n db gated numeric₀ numeric' rfl own before throttled later gate room
    obtain ⟨dry, -, kept⟩ := throttled.waits before rated
    have positive₀ := bucketLimit_rated env c.args.queue q r db
    have positive := bucketLimit_rated env' c.args.queue q r t.db
    rw [kept] at still whole
    have wet := mt (tokensLeft_pos env positive₀) (not_lt.mpr dry)
    rw [← own] at gate room ⊢
    rw [queueGate_lets_iff rated fits gate room, own, still, tokensLeft_pos_iff numeric' positive whole]
    exact waitLeft_changed (emissionInterval_pos _ positive) (le_max_left _ _) rfl rfl (not_le.mp wet)
      (emissionInterval_pos _ positive₀) later
  · rw [still]
    exact tokensLeft_eq_burst numeric' (bucketLimit_rated env' queue q r t.db) whole

end Hints

/-- A queue with a rate of one job a second and a ramp of 100 seconds that has just begun; a first claim takes up to two
of its tokens. -/
def rampBegun (burst : ℤ) : List (Time × Command) :=
  [(0, .ensureQueue (some "q") (some (.build [("claim_rate_per_minute", .ofInt 60), ("claim_burst", .ofInt burst),
      ("ramp_seconds", .ofInt 100)]))),
    (0, .pauseQueue "q" none), (0, .resumeQueue "q"), (0, .claimJobs (.simple "q" 2))]

/-- A second claim is told to come back in a minute, and then has room; the test is about the queue and the state in
which it comes back. -/
def comesBack (p : Queue → Db → Db → Bool) (s : System) : Bool :=
  decide (s.xid < 9) && match oneJob.run (.alone .digits 0 9) s.db with
    | .error _ => false
    | .ok (answer, db) =>
      answer = ⟨.throttled, [], some 60⟩ && breakerPasses (.alone .digits 0 9) "q" s.db &&
      (s.db.queues.get? "q").any fun q => (db.queues.get? "q").any (· = q) && q.claimRatePerMinute = some 60 &&
        0 < leeway (.alone .digits 0 9) "q" q 1 s.db && flowScale (.alone .digits 100000000 11) db "q" q.rampSeconds = 1 &&
        match breakerGate (.alone .digits 60000000 10) "q" db with
        | .ok (none, gated) => 0 < leeway (.alone .digits 60000000 10) "q" q 1 gated && p q db gated
        | _ => false

theorem comesBack_played {burst : ℤ} {p : Queue → Db → Db → Bool}
    (played : System.plays .digits (rampBegun burst) (.installed .digits 0) (comesBack p) = true) :
    ∃ (db gated : Db) (s : System) (q : Queue), System.Reachable .digits anyCall s ∧ s.clock = 0 ∧
      db.queues.get? "q" = some q ∧ s.db.queues.get? "q" = some q ∧ q.claimRatePerMinute = some 60 ∧
      Throttled (.alone .digits 0 9) oneJob 60 db s.db ∧
      breakerGate (.alone .digits 60000000 10) "q" s.db = .ok (none, gated) ∧
      0 < leeway (.alone .digits 60000000 10) "q" q 1 gated ∧
      flowScale (.alone .digits 100000000 11) s.db "q" q.rampSeconds = 1 ∧ p q s.db gated = true := by
  obtain ⟨s, run, there⟩ := System.plays_run anyCall played fun _ _ _ => trivial
  unfold comesBack at there
  rw [Bool.and_eq_true, decide_eq_true_eq] at there
  obtain ⟨early, there⟩ := there
  split at there
  · cases there
  · rename_i answer db claimed
    rw [Bool.and_eq_true, Bool.and_eq_true, decide_eq_true_eq] at there
    obtain ⟨⟨rfl, passes⟩, there⟩ := there
    obtain ⟨q, before, there⟩ := (Option.any_eq_true _ _).mp there
    simp only [Bool.and_eq_true, decide_eq_true_eq] at there
    obtain ⟨⟨⟨⟨after, rated⟩, room⟩, ended⟩, there⟩ := there
    obtain ⟨_, found, same⟩ := (Option.any_eq_true _ _).mp after
    rw [of_decide_eq_true same] at found
    split at there
    · rename_i gated gate
      rw [Bool.and_eq_true, decide_eq_true_eq] at there
      have step : System.Step .digits (.alone .digits 0 9) oneJob.command s
          ⟨db, 0, 9, s.admitted ++ newJobs s.db db⟩ := .commit rfl early (by rw [ClaimCall.exec, claimed]; rfl)
      refine ⟨s.db, gated, _, _, ⟨0, run.step trivial step⟩, rfl, before, found, rated, ⟨claimed, passes, ?_⟩, gate,
        there.1, ended, there.2⟩
      intro q stored
      cases before.symm.trans stored
      exact room
    · cases there

/-- With a burst of one the hint of a minute is right. -/
theorem ramped_hints_single : ∃ (db gated : Db) (s : System) (q : Queue), System.Reachable .digits anyCall s ∧
    Throttled (.alone .digits 0 9) oneJob 60 db s.db ∧
    ∃ k granted, queueGate (.alone .digits 60000000 10) oneJob.args q oneJob.batch gated = .ok (.ok k, granted) ∧ 0 < k := by
  have played : System.plays .digits (rampBegun 1) (.installed .digits 0) (comesBack fun q _ _ =>
      q.claimBurst = some 1) = true := by decide +kernel
  obtain ⟨db, gated, s, q, reachable, -, before, after, rated, throttled, gate, room, -, single⟩ := comesBack_played played
  have single := of_decide_eq_true single
  refine ⟨db, gated, s, q, reachable, throttled, ?_⟩
  refine ((ramped_hints rfl reachable .start after rated (by rw [single]; decide) (fun _ member => nomatch member)).1
    _ _ oneJob oneJob 60 db gated rfl rfl rfl rfl before throttled rfl gate room).mpr ?_
  obtain ⟨-, bound, -⟩ := throttled.waits before rated
  have one : (max 1 (q.claimBurst.getD 60) : ℤ) = 1 := by rw [single]; rfl
  rw [one, Int.cast_one, sub_self, zero_mul]
  exact sub_nonneg.mpr bound

/-- With a burst of two it is not: the tokens of the first claim were taken at an interval of a minute, and at the
interval of a later moment the bucket is far from its next token. Nor is it full when the ramp has ended. -/
theorem ramped_hints_burst : ∃ (db gated : Db) (s : System) (q : Queue), System.Reachable .digits anyCall s ∧
    s.clock = 0 ∧ s.db.queues.get? "q" = some q ∧ q.claimRatePerMinute = some 60 ∧
    Throttled (.alone .digits 0 9) oneJob 60 db s.db ∧
    breakerGate (.alone .digits 60000000 10) "q" s.db = .ok (none, gated) ∧
    0 < leeway (.alone .digits 60000000 10) "q" q 1 gated ∧
    (¬∃ k granted, queueGate (.alone .digits 60000000 10) oneJob.args q oneJob.batch gated = .ok (.ok k, granted) ∧ 0 < k) ∧
    flowScale (.alone .digits 100000000 11) s.db "q" q.rampSeconds = 1 ∧
    q.claimBurst = some 2 ∧ rampedInterval (.alone .digits 100000000 11) "q" q 60 s.db = 1 ∧
    tokensLeft (.alone .digits 100000000 11) (bucketLimit (.alone .digits 100000000 11) "q" q 60 s.db) (s.db.tat "q") < 0 := by
  have played : System.plays .digits (rampBegun 2) (.installed .digits 0) (comesBack fun q db _ =>
      q.claimBurst = some 2 && rampedInterval (.alone .digits 100000000 11) "q" q 60 db = 1 &&
      tokensLeft (.alone .digits 60000000 10) (bucketLimit (.alone .digits 60000000 10) "q" q 60 db) (db.tat "q") < 0 &&
      tokensLeft (.alone .digits 100000000 11) (bucketLimit (.alone .digits 100000000 11) "q" q 60 db) (db.tat "q") <
        0) = true := by decide +kernel
  obtain ⟨db, gated, s, q, reachable, clock, -, after, rated, throttled, gate, room, ended, rest⟩ := comesBack_played played
  simp only [Bool.and_eq_true, decide_eq_true_eq] at rest
  obtain ⟨⟨⟨burst, interval⟩, dry⟩, late⟩ := rest
  refine ⟨db, gated, s, q, reachable, clock, after, rated, throttled, gate, room, fun lets => ?_, ended, burst,
    interval, late⟩
  have fits : max 1 (q.claimBurst.getD 60) ≤ 2147483647 := by rw [burst]; decide
  exact absurd ((queueGate_lets_iff (c := oneJob) rated fits gate room).mp lets) (not_lt.mpr dry.le)

end Taskq
