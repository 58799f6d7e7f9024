import Mathlib.Logic.Relation
import Mathlib.Order.Bounds.Defs
import Mathlib.Order.Interval.Finset.Nat

/-! Bisection for the greatest number that fits, where everything below a number that fits also fits. -/
namespace Relational

/-- Between the bounds, rounded up: above the lower one while they are apart. -/
def middle (low high : ℕ) : ℕ := (low + high + 1) / 2

theorem middle_bounds {low high : ℕ} (apart : low < high) : low < middle low high ∧ middle low high ≤ high := by
  unfold middle
  omega

/-- One round: a middle that fits is the new lower bound, else what is below it is the upper one. -/
inductive Round (fits : ℕ → Prop) : ℕ × ℕ → ℕ × ℕ → Prop
  | raise {low high : ℕ} (apart : low < high) (yes : fits (middle low high)) :
      Round fits (low, high) (middle low high, high)
  | lower {low high : ℕ} (apart : low < high) (no : ¬fits (middle low high)) :
      Round fits (low, high) (low, middle low high - 1)

/-- The lower bound fits, and nothing beyond the upper one does. -/
structure Brackets (fits : ℕ → Prop) (bounds : ℕ × ℕ) : Prop where
  ordered : bounds.1 ≤ bounds.2
  below : fits bounds.1
  above : ∀ k, fits k → k ≤ bounds.2

section Rounds

variable {fits : ℕ → Prop} {a b : ℕ × ℕ}

theorem Round.narrows (round : Round fits a b) : b.2 - b.1 < a.2 - a.1 ∧ b.2 ≤ a.2 := by
  cases round with
  | raise apart =>
    have := middle_bounds apart
    omega
  | lower apart =>
    have := middle_bounds apart
    omega

/-- The upper bound only sinks, so the sum under the middle never exceeds twice the first one. -/
theorem rounds_sum (rounds : Relation.ReflTransGen (Round fits) a b) (apart : b.1 < b.2) : b.1 + b.2 + 1 ≤ 2 * a.2 := by
  have upper : b.2 ≤ a.2 := by
    clear apart
    induction rounds with
    | refl => exact le_rfl
    | tail _ round ih => exact round.narrows.2.trans ih
  omega

/-- There is no endless loop. -/
theorem Round.terminates (fits : ℕ → Prop) : WellFounded (flip (Round fits)) :=
  Subrelation.wf (fun round => round.narrows.1) (InvImage.wf (fun bounds : ℕ × ℕ => bounds.2 - bounds.1) wellFounded_lt)

theorem Brackets.round (closed : ∀ {j k}, j ≤ k → fits k → fits j) (brackets : Brackets fits a) (round : Round fits a b) :
    Brackets fits b := by
  obtain ⟨-, low, above⟩ := brackets
  cases round with
  | raise apart yes => exact ⟨(middle_bounds apart).2, yes, above⟩
  | lower apart no =>
    have := middle_bounds apart
    refine ⟨by omega, low, fun k fit => ?_⟩
    by_contra beyond
    exact no (closed (by omega) fit)

theorem Brackets.rounds (closed : ∀ {j k}, j ≤ k → fits k → fits j) (brackets : Brackets fits a)
    (rounds : Relation.ReflTransGen (Round fits) a b) : Brackets fits b := by
  induction rounds with
  | refl => exact brackets
  | tail _ round ih => exact ih.round closed round

/-- Bounds that met are at the greatest number that fits. -/
theorem Brackets.greatest {k : ℕ} (brackets : Brackets fits (k, k)) : IsGreatest {k | fits k} k :=
  ⟨brackets.below, fun j fit => brackets.above j fit⟩

end Rounds

section Bisect

variable {fits : ℕ → Prop} [DecidablePred fits] {low high rounds : ℕ}

/-- The loop, for a number of rounds at most. -/
def bisect (fits : ℕ → Prop) [DecidablePred fits] : ℕ → ℕ → ℕ → ℕ
  | 0, low, _ => low
  | rounds+1, low, high =>
    if low < high then
      if fits (middle low high) then bisect fits rounds (middle low high) high
      else bisect fits rounds low (middle low high - 1)
    else low

/-- With as many rounds as the bounds are apart the loop runs until they meet. -/
theorem bisect_meets (ordered : low ≤ high) (enough : high - low ≤ rounds) :
    Relation.ReflTransGen (Round fits) (low, high) (bisect fits rounds low high, bisect fits rounds low high) := by
  induction rounds generalizing low high with
  | zero =>
    obtain rfl : low = high := by omega
    exact .refl
  | succ rounds ih =>
    rw [bisect]
    split_ifs with apart yes
    · have bounds := middle_bounds apart
      exact .head (.raise apart yes) (ih bounds.2 (by omega))
    · have bounds := middle_bounds apart
      exact .head (.lower apart yes) (ih (by omega) (by omega))
    · obtain rfl : low = high := by omega
      exact .refl

end Bisect

end Relational
