import Mathlib.Algebra.Order.Floor.Ring
import Mathlib.Data.Rat.Floor
import Mathlib.Tactic.FieldSimp
import Mathlib.Tactic.Linarith
import Mathlib.Tactic.Ring

/-! Token buckets by theoretical arrival times. A bucket stores the instant at which it is full again;
every token moves the instant on by one interval, and it may run ahead of the clock by the burst. -/
namespace Relational

/-- How often one can go on by a step before more than what is free is used, the last time included; without a bound when the step
is nothing. -/
def stepsLeft (free step : ℚ) : Option ℤ :=
  if free < 0 then some 0 else if step = 0 then none else some (⌊free / step⌋ + 1)

theorem stepsLeft_pos {free step : ℚ} (forward : 0 ≤ step) : (stepsLeft free step).all (0 < ·) = true ↔ ¬free < 0 := by
  unfold stepsLeft
  split_ifs with used still
  · simp [used]
  · simp [used]
  · have whole : 0 ≤ ⌊free / step⌋ := Int.floor_nonneg.mpr (div_nonneg (not_lt.mp used) forward)
    simp only [Option.all_some, decide_eq_true_eq, used, not_false_eq_true, iff_true]
    omega

theorem stepsLeft_sub {free step : ℚ} (forward : 0 ≤ step) (some' : 0 ≤ free) :
    stepsLeft (free - step) step = (stepsLeft free step).map (· - 1) := by
  by_cases still : step = 0
  · subst still
    simp [stepsLeft, not_lt.mpr some']
  · have positive : 0 < step := lt_of_le_of_ne forward (Ne.symm still)
    have next : ⌊(free - step) / step⌋ = ⌊free / step⌋ - 1 := by
      rw [sub_div, div_self still, Int.floor_sub_one]
    unfold stepsLeft
    rw [if_neg (not_lt.mpr some'), if_neg still, if_neg still, Option.map_some, next]
    split_ifs with used
    · have last : ⌊free / step⌋ = 0 :=
        Int.floor_eq_zero_iff.mpr ⟨div_nonneg some' forward, (div_lt_one positive).mpr (by linarith)⟩
      rw [last]
      rfl
    · congr 1
      ring

/-- The interval between two tokens, and the tokens that a full bucket holds. -/
structure Bucket where
  interval : ℚ
  burst : ℤ

/-- The arrival time that a claim on the bucket starts from: an idle bucket is full now. -/
def arrival (now : ℚ) (stored : Option ℚ) : ℚ := max (stored.getD now) now

theorem le_arrival (now : ℚ) (stored : Option ℚ) : now ≤ arrival now stored := le_max_right _ _

theorem arrival_some {now x : ℚ} (ahead : now ≤ x) : arrival now (some x) = x := max_eq_left ahead

namespace Bucket

variable {bucket : Bucket} {now opens closes : ℚ} {k n : ℕ} {stored before mid after : Option ℚ}

/-- The whole tokens that a bucket holds. -/
def tokens (bucket : Bucket) (now : ℚ) (stored : Option ℚ) : ℤ :=
  ⌊(now - arrival now stored + bucket.interval * bucket.burst) / bucket.interval⌋

theorem le_tokens (positive : 0 < bucket.interval) (n : ℤ) : n ≤ bucket.tokens now stored ↔
    arrival now stored + n * bucket.interval ≤ now + bucket.burst * bucket.interval := by
  rw [tokens, Int.le_floor, le_div_iff₀ positive]
  constructor <;> intro h <;> linarith

/-- Some tokens are taken at an instant: none, or as many as the bucket holds. -/
def Spends (bucket : Bucket) (now : ℚ) (k : ℕ) (before after : Option ℚ) : Prop :=
  k = 0 ∧ after = before ∨
    0 < k ∧ (k : ℤ) ≤ bucket.tokens now before ∧ after = some (arrival now before + k * bucket.interval)

namespace Spends

theorem none_taken (bucket : Bucket) (now : ℚ) (stored : Option ℚ) : bucket.Spends now 0 stored stored :=
  .inl ⟨rfl, rfl⟩

/-- What is taken twice at one instant is taken together. -/
theorem trans (positive : 0 < bucket.interval) (first : bucket.Spends now k before mid)
    (second : bucket.Spends now n mid after) : bucket.Spends now (k + n) before after := by
  obtain ⟨rfl, rfl⟩ | ⟨some', room, rfl⟩ := first
  · simpa using second
  · obtain ⟨rfl, rfl⟩ | ⟨more, room', rfl⟩ := second
    · exact .inr ⟨some', room, rfl⟩
    · have ahead : now ≤ arrival now before + k * bucket.interval := by
        have := le_arrival now before
        have : (0 : ℚ) ≤ k * bucket.interval := by positivity
        linarith
      have sum : arrival now before + k * bucket.interval + n * bucket.interval =
          arrival now before + ((k + n : ℕ) : ℚ) * bucket.interval := by
        push_cast
        ring
      rw [le_tokens positive, arrival_some ahead] at room'
      refine .inr ⟨by omega, (le_tokens positive _).mpr ?_, ?_⟩
      · push_cast at room' ⊢
        linarith
      · rw [arrival_some ahead, sum]

end Spends

/-- The stored instant has not gone back. -/
def Later (before after : Option ℚ) : Prop := ∀ x, before = some x → ∃ y, after = some y ∧ x ≤ y

theorem Later.refl (stored : Option ℚ) : Later stored stored := fun x h => ⟨x, h, le_rfl⟩

theorem Later.trans (first : Later before mid) (second : Later mid after) : Later before after := by
  intro x h
  obtain ⟨y, h, le⟩ := first x h
  obtain ⟨z, h, le'⟩ := second y h
  exact ⟨z, h, le.trans le'⟩

/-- The tokens taken within a window, while the bucket may be used by anyone outside of it. -/
inductive Window (bucket : Bucket) (opens closes : ℚ) : ℕ → Option ℚ → Prop
  | start (stored : Option ℚ) : Window bucket opens closes 0 stored
  | inside {now : ℚ} {k n : ℕ} {before after : Option ℚ} (taken : Window bucket opens closes k before)
      (low : opens ≤ now) (high : now ≤ closes) (spends : bucket.Spends now n before after) :
      Window bucket opens closes (k + n) after
  | outside {k : ℕ} {before after : Option ℚ} (taken : Window bucket opens closes k before)
      (later : Later before after) : Window bucket opens closes k after

/-- Within a window a bucket gives no more than its burst and the tokens that arrive meanwhile. -/
theorem Window.bound (positive : 0 < bucket.interval) (taken : Window bucket opens closes k stored)
    (burst : 0 ≤ bucket.burst) (forward : opens ≤ closes) :
    (k : ℤ) ≤ bucket.burst + ⌊(closes - opens) / bucket.interval⌋ := by
  suffices (k = 0 ∨ ∃ x, stored = some x ∧ opens + k * bucket.interval ≤ x) ∧
      k * bucket.interval ≤ closes - opens + bucket.burst * bucket.interval by
    rw [← sub_le_iff_le_add', Int.le_floor, le_div_iff₀ positive]
    push_cast
    linarith [this.2]
  induction taken with
  | start =>
    have : (0 : ℚ) ≤ bucket.burst * bucket.interval := by
      have : (0 : ℚ) ≤ bucket.burst := by exact_mod_cast burst
      positivity
    exact ⟨.inl rfl, by push_cast; linarith⟩
  | @inside now k n before after taken low high spends ih =>
    obtain ⟨ahead, bound⟩ := ih
    obtain ⟨rfl, rfl⟩ | ⟨some', room, rfl⟩ := spends
    · exact ⟨ahead, bound⟩
    · rw [le_tokens positive] at room
      have reached : opens + k * bucket.interval ≤ arrival now before := by
        obtain rfl | ⟨x, rfl, le⟩ := ahead
        · simpa using low.trans (le_arrival now before)
        · exact le.trans (le_max_left _ _)
      push_cast at room ⊢
      exact ⟨.inr ⟨_, rfl, by linarith⟩, by linarith⟩
  | @outside k before after taken later ih =>
    obtain ⟨ahead, bound⟩ := ih
    refine ⟨ahead.imp_right ?_, bound⟩
    rintro ⟨x, same, le⟩
    obtain ⟨y, there, le'⟩ := later x same
    exact ⟨y, there, le.trans le'⟩

end Bucket
end Relational
