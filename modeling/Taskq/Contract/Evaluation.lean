import Mathlib.Data.Int.ConditionallyCompleteOrder
import Mathlib.Data.Int.Interval
import Mathlib.Data.Set.Finite.Lattice
import Taskq.Lifecycle.SchedulePaths
import Taskq.Model.Evaluator
import Taskq.Model.System

/-! The evaluator and the fire call: what the evaluator proposes, and the bounds that the database puts on
it. -/
namespace Taskq
open Relational

variable {libraries : Libraries} {recurrence : Jsonb} {policy : CatchupPolicy} {maxCatchup : ℤ} {initialized : Bool}
  {due cutoff after off t : Time} {cron : Croniter} {zone : ZoneInfo} {e : ScheduleEvaluation}

section Search

theorem resolvedWallTime_eq : resolvedWallTime zone t = zone.read t := by
  unfold resolvedWallTime WallClock.read
  split_ifs <;> simp_all

/-- `_cron_next` finds the first wall after that of the given instant, within 370, whose instant is later. -/
theorem cronNext_eq_ok : cronNext cron zone after = .ok t ↔ ∃ w ∈ cron.fires, zone.wall after < w ∧
    (zone.read w = some t ∧ after < t) ∧
    (∀ v ∈ cron.fires, zone.wall after < v → v < w → ∀ u, zone.read v = some u → u ≤ after) ∧
    (cron.fires ∩ Set.Ioo (zone.wall after) w).ncard < 370 := by
  unfold cronNext
  rw [search_eq_ok cron.forward]
  simp only [resolvedWallTime_eq, Option.filter_eq_some_iff, Option.filter_eq_none_iff, decide_eq_true_eq, not_lt]

/-- `_cron_latest` finds the last wall up to that of the given instant, within 370, whose instant is not later. -/
theorem cronLatest_eq_ok : cronLatest cron zone cutoff = .ok t ↔ ∃ w ∈ cron.fires, w ≤ zone.wall cutoff ∧
    (zone.read w = some t ∧ t ≤ cutoff) ∧
    (∀ v ∈ cron.fires, v ≤ zone.wall cutoff → w < v → ∀ u, zone.read v = some u → cutoff < u) ∧
    (cron.fires ∩ Set.Ioc w (zone.wall cutoff)).ncard < 370 := by
  have interval (w : ℤ) : @Set.Ioo Timeᵒᵈ _ (zone.wall cutoff + 1 : ℤ) w = Set.Ioc w (zone.wall cutoff) := by
    ext v
    constructor
    · rintro ⟨low, high⟩
      exact ⟨high, Int.lt_add_one_iff.mp low⟩
    · rintro ⟨low, high⟩
      exact ⟨Int.lt_add_one_iff.mpr high, low⟩
  have reach (w : ℤ) : @LT.lt Timeᵒᵈ _ (zone.wall cutoff + 1 : ℤ) w ↔ w ≤ zone.wall cutoff := Int.lt_add_one_iff
  have taken (w : ℤ) : (resolvedWallTime zone w).filter (· ≤ cutoff) = some t ↔ zone.read w = some t ∧ t ≤ cutoff := by
    rw [resolvedWallTime_eq, Option.filter_eq_some_iff, decide_eq_true_eq]
  have refused (w : ℤ) :
      (resolvedWallTime zone w).filter (· ≤ cutoff) = none ↔ ∀ u, zone.read w = some u → cutoff < u := by
    simp only [resolvedWallTime_eq, Option.filter_eq_none_iff, decide_eq_true_eq, not_le]
  refine (search_eq_ok cron.backward).trans (exists_congr fun w => and_congr_right' ?_)
  exact and_congr (reach w) (and_congr (taken w) (and_congr
    (forall₂_congr fun v _ => imp_congr (reach v) (imp_congr Iff.rfl (refused v))) (by rw [interval w]; exact Iff.rfl)))

end Search

section Next

theorem nextInstant_gt (run : nextInstant libraries recurrence after = .ok t) : after < t := by
  unfold nextInstant at run
  split_ifs at run
  · split at run
    · obtain ⟨_, range, finish⟩ := seq_eq_ok.mp run
      cases finish
      obtain ⟨positive, -⟩ := ensure_eq_ok.mp range
      exact lt_add_of_pos_right after (mul_pos (by omega : (0 : ℤ) < _) (by decide))
    · cases run
  · obtain ⟨⟨cron, zone⟩, -, run⟩ := seq_eq_ok.mp run
    obtain ⟨-, -, -, ⟨-, later⟩, -⟩ := cronNext_eq_ok.mp run
    exact later

end Next

section Bounds

/-- The bounds that the database puts on an evaluation. -/
def InBounds (policy : CatchupPolicy) (maxCatchup : ℤ) (initialized : Bool) (due cutoff : Time)
    (e : ScheduleEvaluation) : Prop :=
  (e.occurrences.length ≤ maxCatchup ∧ due < e.nextFireAt) ∧ orderedAndDue cutoff none e.occurrences = true ∧
  if initialized = false ∨ policy = .skip then e.occurrences.length = 0 ∧ cutoff < e.nextFireAt
  else if policy = .fireOnce then
    e.occurrences.length = 1 ∧ e.occurrences.head?.all (due ≤ ·) = true ∧ cutoff < e.nextFireAt
  else 1 ≤ e.occurrences.length ∧ e.occurrences.length ≤ maxCatchup ∧ e.occurrences.head? = some due ∧
    e.occurrences.getLast?.all (· < e.nextFireAt) = true ∧
    (e.occurrences.length < maxCatchup → cutoff < e.nextFireAt)

theorem checkFire_iff {s : ScheduleRow} {claim : ScheduleClaim} {a : FireArgs} :
    (∃ outcome, checkFire s claim a = .ok outcome) ↔
      InBounds s.catchupPolicy s.maxCatchup s.initialized s.nextFireAt claim.asOf ⟨a.occurrences, a.nextFireAt⟩ := by
  simp only [checkFire, fireOutcome, InBounds, seq_eq_ok, ensure_eq_ok, exists_const]
  cases s.initialized <;> cases s.catchupPolicy <;> simp

theorem orderedAndDue_shift {dues : List Time} {previous : Option Time} :
    orderedAndDue (cutoff + off) (previous.map (· + off)) (dues.map (· + off)) =
      orderedAndDue cutoff previous dues := by
  induction dues generalizing previous with
  | nil => rfl
  | cons d dues ih =>
    have rest := @ih (some d)
    simp only [Option.map_some] at rest
    cases previous <;> simp [orderedAndDue, rest]

theorem inBounds_shift : InBounds policy maxCatchup initialized (due + off) (cutoff + off) (e.shift off) ↔
    InBounds policy maxCatchup initialized due cutoff e := by
  have ordered : orderedAndDue (cutoff + off) none (e.occurrences.map (· + off)) =
      orderedAndDue cutoff none e.occurrences := @orderedAndDue_shift cutoff off e.occurrences none
  have first : e.occurrences.head?.map (· + off) = some (due + off) ↔ e.occurrences.head? = some due := by
    simp [Option.map_eq_some_iff]
  simp only [InBounds, ScheduleEvaluation.shift, ordered, List.length_map, List.head?_map, List.getLast?_map, first,
    Option.all_map, add_lt_add_iff_right, add_le_add_iff_right]

end Bounds

section Evaluate

/-- A multiple of the interval lies above the time that has passed, but not above its nearest double. -/
def Overshoots (recurrence : Jsonb) (elapsed : ℤ) : Prop :=
  recurrence.field? "kind" = some (.str "interval") ∧ ∃ n, intervalSeconds recurrence = some n ∧
    ∃ k : ℤ, elapsed < seconds (k * n) ∧ ((k * n : ℤ) : ℚ) ≤ totalSeconds elapsed

/-- The latest instant of an interval is beyond the cutoff exactly if a multiple is overshot. -/
theorem latest_le_iff {n : ℤ} (positive : 0 < n) {elapsed : ℤ} :
    seconds (⌊totalSeconds elapsed / n⌋ * n) ≤ elapsed ↔
      ¬∃ k : ℤ, elapsed < seconds (k * n) ∧ ((k * n : ℤ) : ℚ) ≤ totalSeconds elapsed := by
  have length : (0 : ℚ) < n := Int.cast_pos.mpr positive
  have below (k : ℤ) : ((k * n : ℤ) : ℚ) ≤ totalSeconds elapsed ↔ k ≤ ⌊totalSeconds elapsed / n⌋ := by
    rw [Int.le_floor, le_div_iff₀ length, Int.cast_mul]
  constructor
  · rintro latest ⟨k, above, near⟩
    have multiples : k * n ≤ ⌊totalSeconds elapsed / n⌋ * n :=
      mul_le_mul_of_nonneg_right ((below k).mp near) positive.le
    have later : seconds (k * n) ≤ seconds (⌊totalSeconds elapsed / n⌋ * n) :=
      mul_le_mul_of_nonneg_right multiples (by decide)
    exact absurd above (later.trans latest).not_gt
  · intro none
    by_contra above
    exact none ⟨_, not_le.mp above, (below _).mpr le_rfl⟩

/-- Below `2 ^ 34` seconds the nearest double is within less than a microsecond. -/
theorem totalSeconds_lt {elapsed : ℤ} (early : elapsed < seconds (2 ^ 34)) (past : 0 ≤ elapsed) :
    totalSeconds elapsed < (elapsed + 1 : ℤ) / 1000000 := by
  have bounded : (elapsed : ℚ) / 1000000 < 2 ^ (34 : ℤ) := by
    have cast : (elapsed : ℚ) < (seconds (2 ^ 34) : ℤ) := Int.cast_lt.mpr early
    unfold seconds at cast
    push_cast at cast
    norm_num at cast ⊢
    linarith
  unfold totalSeconds toDouble
  dsimp only
  generalize exactly : (elapsed : ℚ) / 1000000 = x at bounded ⊢
  have nonneg : 0 ≤ x := exactly ▸ div_nonneg (by exact_mod_cast past) (by norm_num)
  have log : Int.log 2 |x| - 52 ≤ -19 := by
    rw [abs_of_nonneg nonneg]
    obtain rfl | positive := nonneg.eq_or_lt
    · simp
    · have low := Int.zpow_log_le_self (b := 2) (by decide) positive
      have order : Int.log 2 x < 34 := (zpow_lt_zpow_iff_right₀ (by norm_num : (1 : ℚ) < 2)).mp
        (lt_of_le_of_lt (by exact_mod_cast low) bounded)
      omega
  generalize unitary : (2 : ℚ) ^ (Int.log 2 |x| - 52) = unit
  have positive : 0 < unit := unitary ▸ zpow_pos (by norm_num) _
  have small : unit ≤ 2 ^ (-19 : ℤ) := unitary ▸ zpow_le_zpow_right₀ (by norm_num) log
  calc (roundHalfEven (x / unit) : ℚ) * unit ≤ (x / unit + 1 / 2) * unit :=
        mul_le_mul_of_nonneg_right (roundHalfEven_le _) positive.le
    _ = x + unit / 2 := by field_simp
    _ < x + 1 / 1000000 := by norm_num at small ⊢; linarith
    _ = (elapsed + 1 : ℤ) / 1000000 := by rw [← exactly]; push_cast; ring

/-- Only after `2 ^ 34` seconds can a multiple of the interval be overshot. -/
theorem overshoots_late {elapsed : ℤ} (excess : Overshoots recurrence elapsed) (past : 0 ≤ elapsed) :
    seconds (2 ^ 34) ≤ elapsed := by
  obtain ⟨-, n, -, k, above, near⟩ := excess
  by_contra early
  have rounded := near.trans_lt (totalSeconds_lt (not_le.mp early) past)
  rw [lt_div_iff₀ (by norm_num)] at rounded
  have whole : k * n * 1000000 < elapsed + 1 := by exact_mod_cast rounded
  unfold seconds at above
  omega

/-- What `fire_all` proposes from a cursor on. -/
theorem fireAll_bounds {n : ℕ} {cursor : Time} {previous : Option Time}
    (run : fireAll libraries recurrence cutoff n cursor = .ok e) (past : previous.all (· < cursor) = true) :
    e.occurrences.length ≤ n ∧ orderedAndDue cutoff previous e.occurrences = true ∧ cursor ≤ e.nextFireAt ∧
    (cursor ≤ cutoff → 0 < n → e.occurrences.head? = some cursor ∧ cursor < e.nextFireAt) ∧
    e.occurrences.getLast?.all (· < e.nextFireAt) = true ∧ (e.occurrences.length < n → cutoff < e.nextFireAt) := by
  induction n generalizing cursor previous e with
  | zero =>
    cases run
    simp [orderedAndDue]
  | succ n ih =>
    unfold fireAll at run
    split_ifs at run with reached
    · obtain ⟨next, step, run⟩ := seq_eq_ok.mp run
      obtain ⟨rest, loop, finish⟩ := seq_eq_ok.mp run
      cases finish
      have later := nextInstant_gt step
      obtain ⟨count, sorted, after, -, last, full⟩ := @ih rest next (some cursor) loop (decide_eq_true later)
      refine ⟨Nat.succ_le_succ count, ?_, later.le.trans after, fun _ _ => ⟨rfl, later.trans_le after⟩, ?_,
        fun short => full (Nat.lt_of_succ_lt_succ short)⟩
      · simp only [orderedAndDue, reached, past, sorted, decide_true, Bool.and_self]
      · cases dues : rest.occurrences.getLast? with
        | none =>
          rw [List.getLast?_eq_none_iff.mp dues]
          exact decide_eq_true (later.trans_le after)
        | some d =>
          rw [dues] at last
          simpa [List.getLast?_cons, dues] using last
    · cases run
      simp [orderedAndDue, not_le.mp reached, reached]

/-- An evaluation keeps all bounds but for a `fire_once` that overshoots. -/
theorem evaluateBase_inBounds
    (run : evaluateBase libraries recurrence policy maxCatchup initialized due cutoff = .ok e) :
    InBounds policy maxCatchup initialized due cutoff e ↔
      ¬(initialized = true ∧ policy = .fireOnce ∧ Overshoots recurrence (cutoff - due)) := by
  obtain ⟨⟨⟩, guard, run⟩ := seq_eq_ok.mp run
  obtain ⟨late, least, most⟩ := ensure_eq_ok.mp guard
  split_ifs at run with quiet once
  · obtain ⟨next, step, finish⟩ := seq_eq_ok.mp run
    cases finish
    have later := nextInstant_gt step
    refine iff_of_true ⟨⟨(by omega : (0 : ℤ) ≤ maxCatchup), late.trans_lt later⟩, rfl, ?_⟩ ?_
    · rw [if_pos quiet]
      exact ⟨rfl, later⟩
    · rintro ⟨init, policy, -⟩
      simp [init, policy] at quiet
  · obtain ⟨latest, find, run⟩ := seq_eq_ok.mp run
    obtain ⟨⟨⟩, after, run⟩ := seq_eq_ok.mp run
    obtain ⟨next, step, finish⟩ := seq_eq_ok.mp run
    cases finish
    have after := ensure_eq_ok.mp after
    have later := nextInstant_gt step
    have bounds : InBounds policy maxCatchup initialized due cutoff ⟨[latest], next⟩ ↔ latest ≤ cutoff := by
      simp only [InBounds, if_neg quiet, if_pos once]
      simp [orderedAndDue, least, after, later, late.trans_lt later]
    rw [bounds]
    have init : initialized = true := by
      cases initialized <;> simp_all
    simp only [init, once, true_and]
    unfold latestInstant at find
    split_ifs at find with interval
    · split at find
      · rename_i n given
        obtain ⟨⟨⟩, -, finish⟩ := seq_eq_ok.mp find
        cases finish
        have positive : 0 < n := by
          unfold nextInstant at step
          rw [if_pos interval, given] at step
          obtain ⟨⟨⟩, range, -⟩ := seq_eq_ok.mp step
          obtain ⟨low, -⟩ := ensure_eq_ok.mp range
          omega
        have distance (x : ℤ) : due + x ≤ cutoff ↔ x ≤ cutoff - due := le_sub_iff_add_le'.symm
        rw [distance, latest_le_iff positive]
        simp [Overshoots, interval, given]
      · cases find
    · obtain ⟨⟨cron, zone⟩, -, find⟩ := seq_eq_ok.mp find
      obtain ⟨-, -, -, ⟨-, before⟩, -⟩ := cronLatest_eq_ok.mp find
      exact iff_of_true before fun excess => interval excess.1
  · obtain ⟨count, sorted, after, first, last, full⟩ := @fireAll_bounds _ _ _ _ _ _ none run rfl
    obtain ⟨first, advances⟩ := first late (by omega)
    have some : e.occurrences ≠ [] := by
      rintro none
      simp [none] at first
    have least : 1 ≤ e.occurrences.length := List.length_pos_iff.mpr some
    refine iff_of_true ⟨⟨by omega, advances⟩, sorted, ?_⟩ fun excess => once excess.2.1
    rw [if_neg quiet, if_neg once]
    exact ⟨least, by omega, first, last, fun short => full (by omega)⟩

end Evaluate

section Claims

variable {env : Env} {db db' : Db} {worker : Option String} {limit lease : Option ℤ} {claims : List ClaimedSchedule}
  {c : ClaimedSchedule} {smear : ℤ}

/-- The row of a claimed schedule and its lease, as the claim reports them. -/
structure Reports (c : ClaimedSchedule) (s : ScheduleRow) (claim : ScheduleClaim) : Prop where
  held : s.claim = some claim
  token : claim.token = c.token
  asOf : claim.asOf = c.asOf
  version : s.version = c.definitionVersion
  recurrence : s.recurrence = c.recurrence
  catchupPolicy : s.catchupPolicy = c.catchupPolicy
  maxCatchup : s.maxCatchup = c.maxCatchup
  initialized : s.initialized = c.initialized
  nextFireAt : s.nextFireAt = c.nextFireAt

theorem claimAll_reports {worker : String} {lease : ℤ} {rows : List (Uuid × Schedule)}
    (run : claimAll env worker lease rows db = .ok (claims, db')) (keys : (rows.map Prod.fst).Nodup) :
    (∀ id, id ∉ rows.map Prod.fst → db'.scheduling.schedules.get? id = db.scheduling.schedules.get? id) ∧
    ∀ c ∈ claims, c.scheduleId ∈ rows.map Prod.fst ∧ ∃ s claim,
      db'.scheduling.schedules.get? c.scheduleId = some s ∧ Reports c s.toScheduleRow claim := by
  induction rows generalizing db claims with
  | nil =>
    cases run
    exact ⟨fun _ _ => rfl, nofun⟩
  | cons row rows ih =>
    obtain ⟨⟨first, mid⟩, claimed, run⟩ := seq_eq_ok.mp run
    obtain ⟨⟨rest, last⟩, loop, finish⟩ := seq_eq_ok.mp run
    cases finish
    obtain ⟨apart, keys⟩ := List.nodup_cons.mp keys
    obtain ⟨others, reports⟩ := ih loop keys
    obtain ⟨written, write, finish⟩ := seq_eq_ok.mp claimed
    cases finish
    obtain ⟨s, same, rfl⟩ := writeSchedule_frame write
    refine ⟨fun id out => ?_, fun c member => ?_⟩
    · obtain ⟨other, out⟩ := not_or.mp (List.mem_cons.not.mp out)
      rw [others id out]
      exact Table.get?_put_of_ne _ _ other
    · obtain rfl | member := List.mem_cons.mp member
      · refine ⟨List.mem_cons_self, s, ⟨db.nextUuid, env.now, worker, env.now + seconds lease⟩, ?_, ?_⟩
        · rw [others row.1 apart]
          exact Table.get?_put_self _ _ _
        · rw [same]
          exact ⟨rfl, rfl, rfl, rfl, rfl, rfl, rfl, rfl, rfl⟩
      · obtain ⟨inside, found⟩ := reports c member
        exact ⟨List.mem_cons_of_mem _ inside, found⟩

theorem claimSchedules_reports (run : claimSchedules env worker limit lease db = .ok (claims, db'))
    (member : c ∈ claims) :
    ∃ s claim, db'.scheduling.schedules.get? c.scheduleId = some s ∧ Reports c s.toScheduleRow claim := by
  simp only [claimSchedules, seq_eq_ok] at run
  obtain ⟨_, -, _, -, run⟩ := run
  exact ((claimAll_reports run
    ((Table.selectBy_keys_nodup _ _ _).sublist ((List.take_sublist _ _).map _))).2 c member).2

/-- What the evaluator proposes for a claim is within the bounds of the fire call, but for a `fire_once` of an
interval whose elapsed time rounds up to a multiple of it. -/
theorem evaluations_fire (claimed : claimSchedules env worker limit lease db = .ok (claims, db'))
    (member : c ∈ claims) (run : evaluateClaim libraries c smear = .ok e) :
    ∃ s claim, db'.scheduling.schedules.get? c.scheduleId = some s ∧ Reports c s.toScheduleRow claim ∧
      ((∃ outcome, checkFire s.toScheduleRow claim (e.fireArgs c) = .ok outcome) ↔
        ¬(c.initialized = true ∧ c.catchupPolicy = .fireOnce ∧
          Overshoots c.recurrence (c.asOf - c.nextFireAt))) := by
  obtain ⟨s, claim, stored, reports⟩ := claimSchedules_reports claimed member
  refine ⟨s, claim, stored, reports, ?_⟩
  rw [checkFire_iff, reports.catchupPolicy, reports.maxCatchup, reports.initialized, reports.nextFireAt, reports.asOf]
  change InBounds _ _ _ _ _ e ↔ _
  unfold evaluateClaim evaluateSchedule at run
  split_ifs at run with smeared
  · obtain ⟨base, evaluated, finish⟩ := seq_eq_ok.mp run
    cases finish
    have shifted := @inBounds_shift c.catchupPolicy c.maxCatchup c.initialized (c.nextFireAt - seconds smear)
      (c.asOf - seconds smear) (seconds smear) base
    rw [sub_add_cancel, sub_add_cancel] at shifted
    rw [shifted, evaluateBase_inBounds evaluated, sub_sub_sub_cancel_right]
  · exact evaluateBase_inBounds run

theorem daily_next (time s : ℤ) : IsLeast {c | c ∈ {w | (w - time) % 86400000000 = 0} ∧ s < c}
    (s + 86400000000 - (s - time) % 86400000000) := by
  refine ⟨⟨?_, by omega⟩, fun c => ?_⟩
  · simp only [Set.mem_ofPred_eq]
    omega
  · simp only [Set.mem_ofPred_eq]
    omega

theorem daily_previous (time s : ℤ) : IsGreatest {c | c ∈ {w | (w - time) % 86400000000 = 0} ∧ c < s}
    (s - 1 - (s - 1 - time) % 86400000000) := by
  refine ⟨⟨?_, by omega⟩, fun c => ?_⟩
  · simp only [Set.mem_ofPred_eq]
    omega
  · simp only [Set.mem_ofPred_eq]
    omega

/-- An expression that matches at one time of every day. -/
def Croniter.daily (time : Time) : Croniter where
  fires := {w | (w - time) % 86400000000 = 0}
  getNext s := some (s + 86400000000 - (s - time) % 86400000000)
  getPrev s := some (s - 1 - (s - 1 - time) % 86400000000)
  forward := ⟨fun step => Option.some.inj step ▸ daily_next time _, nofun⟩
  backward := ⟨fun step => Option.some.inj step ▸ daily_previous time _, nofun⟩

theorem Croniter.mem_daily {time w : ℤ} : w ∈ (Croniter.daily time).fires ↔ (w - time) % 86400000000 = 0 := Iff.rfl

/-- Libraries that know one expression and one zone. -/
def Libraries.only (cron : Croniter) (zone : ZoneInfo) : Libraries := ⟨fun _ => cron, fun _ => some zone⟩

def utc : ZoneInfo := ⟨0, [], trivial⟩

/-- A schedule of one job of a queue every minute, the missed ones under a policy. -/
def minutely (policy : CatchupPolicy) : Jsonb :=
  .build [("target", .build [("kind", .str "job"), ("queue", .str "q"), ("job_type", .str "t")]),
    ("recurrence", .build [("kind", .str "interval"), ("interval_seconds", .ofInt 60)]),
    ("catchup_policy", .str policy.text), ("max_catchup", .ofInt 1)]

/-- It is put, and compiled to be due after a minute. -/
def compiled (policy : CatchupPolicy) : List (Time × Command) :=
  [(0, .ensureQueue (some "q") none), (0, .putSchedule (some "s") (minutely policy) (some "a") none),
    (0, .claimSchedules (some "w") (some 2) (some 300)), (0, .fireSchedule ⟨2, 4, 1, [], 60000000⟩)]

/-- The evaluation of the first minute under `fire_all` is accepted. -/
theorem evaluations_fire_first : ∃ (db db' : Db) (claims : List ClaimedSchedule) (c : ClaimedSchedule)
    (e : ScheduleEvaluation),
    claimSchedules (.alone .digits 60000000 9) (some "w") (some 1) (some 300) db = .ok (claims, db') ∧ c ∈ claims ∧
    evaluateClaim (.only (.daily 0) utc) c 0 = .ok e ∧ ∃ s claim,
      db'.scheduling.schedules.get? c.scheduleId = some s ∧ Reports c s.toScheduleRow claim ∧
      ∃ outcome, checkFire s.toScheduleRow claim (e.fireArgs c) = .ok outcome := by
  have played : System.plays .digits (compiled .fireAll) (.installed .digits 0) (fun sys =>
      (claimSchedules (.alone .digits 60000000 9) (some "w") (some 1) (some 300) sys.db).toOption.any fun r =>
        r.1.any fun c => c.catchupPolicy = .fireAll && (evaluateClaim (.only (.daily 0) utc) c 0).toOption.isSome) =
      true := by
    decide +kernel
  obtain ⟨sys, -, there⟩ := System.plays_run anyCall played fun _ _ _ => trivial
  obtain ⟨⟨claims, db'⟩, claimed, there⟩ := (Option.any_eq_true _ _).mp there
  obtain ⟨c, member, there⟩ := List.any_eq_true.mp there
  obtain ⟨policy, there⟩ := Bool.and_eq_true _ _ |>.mp there
  obtain ⟨e, evaluated⟩ := Option.isSome_iff_exists.mp there
  replace claimed := toOption_eq_some.mp claimed
  replace evaluated := toOption_eq_some.mp evaluated
  obtain ⟨s, claim, stored, reports, accepted⟩ := evaluations_fire claimed member evaluated
  refine ⟨sys.db, db', claims, c, e, claimed, member, evaluated, s, claim, stored, reports, accepted.mpr ?_⟩
  rw [of_decide_eq_true policy]
  rintro ⟨-, other, -⟩
  cases other

/-- One microsecond before a minute passes, more than `2 ^ 34` seconds after the first. -/
def nearlyMinute : Time := 60000000 + 17179869239999999

/-- There the minute that has not passed yet is proposed under `fire_once`, and refused. -/
theorem evaluations_fire_early : ∃ (sys : System) (db' : Db) (claims : List ClaimedSchedule) (c : ClaimedSchedule)
    (e : ScheduleEvaluation), System.Reachable .digits anyCall sys ∧
    claimSchedules (.alone .digits nearlyMinute 9) (some "w") (some 2) (some 300) sys.db = .ok (claims, db') ∧
    c ∈ claims ∧ evaluateClaim (.only (.daily 0) utc) c 0 = .ok e ∧ e.occurrences = [nearlyMinute + 1] ∧
    (∀ s claim, db'.scheduling.schedules.get? c.scheduleId = some s → Reports c s.toScheduleRow claim →
      ¬∃ outcome, checkFire s.toScheduleRow claim (e.fireArgs c) = .ok outcome) ∧
    fireSchedule (.alone .digits nearlyMinute 10) (e.fireArgs c) db' =
      .error (tq422 "schedule occurrences must be ordered and due") := by
  have played : System.plays .digits (compiled .fireOnce) (.installed .digits 0) (fun sys =>
      (claimSchedules (.alone .digits nearlyMinute 9) (some "w") (some 2) (some 300) sys.db).toOption.any fun r =>
        r.1.any fun c => (evaluateClaim (.only (.daily 0) utc) c 0).toOption.any fun e =>
          e.occurrences = [nearlyMinute + 1] && c.asOf = nearlyMinute &&
          match fireSchedule (.alone .digits nearlyMinute 10) (e.fireArgs c) r.2 with
          | .error e => e = tq422 "schedule occurrences must be ordered and due"
          | .ok _ => false) = true := by
    decide +kernel
  obtain ⟨sys, run, there⟩ := System.plays_run anyCall played fun _ _ _ => trivial
  obtain ⟨⟨claims, db'⟩, claimed, there⟩ := (Option.any_eq_true _ _).mp there
  obtain ⟨c, member, there⟩ := List.any_eq_true.mp there
  obtain ⟨e, evaluated, there⟩ := (Option.any_eq_true _ _).mp there
  simp only [Bool.and_eq_true, decide_eq_true_eq] at there
  obtain ⟨⟨dues, asOf⟩, refused⟩ := there
  refine ⟨sys, db', claims, c, e, ⟨0, run⟩, toOption_eq_some.mp claimed, member, toOption_eq_some.mp evaluated, dues,
    fun s claim _ reports accepted => ?_, ?_⟩
  · obtain ⟨-, sorted, -⟩ := checkFire_iff.mp accepted
    simp [ScheduleEvaluation.fireArgs, dues, reports.asOf, asOf, orderedAndDue] at sorted
  · split at refused
    · rename_i refusal
      rw [refusal, of_decide_eq_true refused]
    · cases refused

end Claims

end Taskq
