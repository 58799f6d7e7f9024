import Mathlib.Algebra.Order.Group.Int
import Mathlib.Order.Bounds.Defs
import Mathlib.Tactic.SplitIfs

/-! Wall clocks: a clock that is off a time line by an offset, which changes at given instants. A wall time
that the clock shows twice is read as the earlier instant, one that it never shows as none. -/
namespace Relational

/-- The offset at an instant: that of the last change. -/
def offsetAt : ℤ → List (ℤ × ℤ) → ℤ → ℤ
  | before, [], _ => before
  | before, (start, after) :: changes, t => if start ≤ t then offsetAt after changes t else before

/-- The offset with which a wall time is read: a change counts from the greater of the two walls at which it
happens. -/
def readingOffset : ℤ → List (ℤ × ℤ) → ℤ → ℤ
  | before, [], _ => before
  | before, (start, after) :: changes, wall =>
    if start + max before after ≤ wall then readingOffset after changes wall else before

/-- The walls that a change repeats or leaves out have passed before those of the next change begin. -/
def Apart : ℤ → List (ℤ × ℤ) → Prop
  | _, [] => True
  | before, (start, after) :: changes =>
    (∀ next ∈ changes.head?, start + max before after ≤ next.1 + min after next.2) ∧ Apart after changes

instance decidableApart : (before : ℤ) → (changes : List (ℤ × ℤ)) → Decidable (Apart before changes)
  | _, [] => isTrue trivial
  | before, (start, after) :: changes =>
    have := decidableApart after changes
    inferInstanceAs (Decidable ((∀ next ∈ changes.head?, start + max before after ≤ next.1 + min after next.2) ∧
      Apart after changes))

/-- A clock: its first offset, and the changes in order, each with its instant and the offset from then on. -/
structure WallClock where
  before : ℤ
  changes : List (ℤ × ℤ)
  apart : Apart before changes

def WallClock.offset (z : WallClock) (t : ℤ) : ℤ := offsetAt z.before z.changes t

/-- What the clock shows at an instant. -/
def WallClock.wall (z : WallClock) (t : ℤ) : ℤ := t + z.offset t

/-- The offset with which a wall time is read. -/
def WallClock.reading (z : WallClock) (wall : ℤ) : ℤ := readingOffset z.before z.changes wall

section Changes

variable {before start after t w : ℤ} {changes : List (ℤ × ℤ)}

/-- Up to the next change the clock is off by the offset of the last one. -/
theorem offsetAt_early (apart : Apart before ((start, after) :: changes)) (early : t < start) :
    offsetAt after changes t = after := by
  cases changes with
  | nil => rfl
  | cons next changes =>
    have gap := apart.1 next rfl
    rw [offsetAt, if_neg (by omega)]

/-- After a change the clock shows no wall before that of the change. -/
theorem wall_after (apart : Apart before ((start, after) :: changes)) (late : start ≤ t) :
    start + after ≤ t + offsetAt after changes t := by
  induction changes generalizing before start after with
  | nil => simpa [offsetAt] using late
  | cons next changes ih =>
    have gap := apart.1 next rfl
    rw [offsetAt]
    split_ifs with reached
    · have later := ih apart.2 reached
      omega
    · omega

/-- A wall beyond a change is shown, if at all, after the change. -/
theorem start_le_of_wall (apart : Apart before ((start, after) :: changes))
    (shown : t + offsetAt after changes t = w) (beyond : start + after ≤ w) : start ≤ t := by
  by_contra early
  rw [offsetAt_early apart (by omega)] at shown
  omega

/-- The wall of an instant is read as an instant not after it that shows the same wall. -/
theorem reading_wall (apart : Apart before changes) (t : ℤ) :
    let w := t + offsetAt before changes t
    let u := w - readingOffset before changes w
    u ≤ t ∧ u + offsetAt before changes u = w := by
  induction changes generalizing before with
  | nil => simp [offsetAt, readingOffset]
  | cons change changes ih =>
    obtain ⟨start, after⟩ := change
    dsimp only
    generalize shown : t + offsetAt before ((start, after) :: changes) t = w
    by_cases late : start ≤ t
    · rw [offsetAt, if_pos late] at shown
      have passed := wall_after apart late
      by_cases beyond : start + max before after ≤ w
      · obtain ⟨earlier, shows⟩ := ih apart.2
        rw [shown] at earlier shows
        have reached := start_le_of_wall apart shows (by omega)
        rw [readingOffset, if_pos beyond]
        exact ⟨earlier, by rw [offsetAt, if_pos reached]; exact shows⟩
      · rw [readingOffset, if_neg beyond, offsetAt, if_neg (by omega)]
        omega
    · rw [offsetAt, if_neg late] at shown
      rw [readingOffset, if_neg (by omega), offsetAt, if_neg (by omega)]
      omega

/-- A wall beyond a change that is read as an instant showing it is read among the later changes. -/
theorem reading_beyond (beyond : start + max before after ≤ w)
    (shows : t + offsetAt before ((start, after) :: changes) t = w) :
    start ≤ t ∧ t + offsetAt after changes t = w := by
  rw [offsetAt] at shows
  split_ifs at shows with reached
  · exact ⟨reached, shows⟩
  · omega

/-- Walls that are shown are first shown in their order. -/
theorem reading_mono (apart : Apart before changes) {v w : ℤ} (order : v < w) :
    let t := v - readingOffset before changes v
    let u := w - readingOffset before changes w
    t + offsetAt before changes t = v → u + offsetAt before changes u = w → t < u := by
  induction changes generalizing before with
  | nil =>
    intro t u _ _
    simpa [t, u, readingOffset] using order
  | cons change changes ih =>
    obtain ⟨start, after⟩ := change
    intro t u first second
    by_cases high : start + max before after ≤ w
    · have later : u = w - readingOffset after changes w := by
        simp only [u, readingOffset, if_pos high]
      obtain ⟨reached, second⟩ := reading_beyond high second
      by_cases low : start + max before after ≤ v
      · have settled : t = v - readingOffset after changes v := by
          simp only [t, readingOffset, if_pos low]
        obtain ⟨-, first⟩ := reading_beyond low first
        rw [settled] at first ⊢
        rw [later] at second ⊢
        exact ih apart.2 first second
      · have settled : t = v - before := by
          simp only [t, readingOffset, if_neg low]
        -- the earlier wall is read before the change: after it, it would be one of its walls
        by_contra swapped
        have late : start ≤ t := by omega
        have passed := wall_after apart late
        rw [offsetAt, if_pos late] at first
        omega
    · have settled : t = v - before := by
        simp only [t, readingOffset, if_neg (show ¬start + max before after ≤ v by omega)]
      have settled' : u = w - before := by
        simp only [u, readingOffset, if_neg high]
      omega

end Changes

namespace WallClock

variable {z : WallClock} {t u v w : ℤ}

/-- The instant that a wall time is read as, if the clock then shows it. -/
def read (z : WallClock) (w : ℤ) : Option ℤ :=
  if z.wall (w - z.reading w) = w then some (w - z.reading w) else none

theorem read_eq_some : z.read w = some u ↔ u = w - z.reading w ∧ z.wall u = w := by
  unfold read
  split_ifs with shown
  · simp only [Option.some.injEq]
    exact ⟨fun same => ⟨same.symm, same ▸ shown⟩, fun ⟨same, _⟩ => same.symm⟩
  · simp only [false_iff]
    rintro ⟨rfl, shows⟩
    exact shown shows

/-- A wall time is read as the first instant at which the clock shows it. -/
theorem read_eq_some_iff_isLeast : z.read w = some u ↔ IsLeast {t | z.wall t = w} u := by
  have earliest (t : ℤ) : z.wall t = w → w - z.reading w ≤ t ∧ z.wall (w - z.reading w) = w := by
    rintro rfl
    exact reading_wall z.apart t
  rw [read_eq_some]
  constructor
  · rintro ⟨rfl, shows⟩
    exact ⟨shows, fun t shown => (earliest t shown).1⟩
  · rintro ⟨shows, least⟩
    obtain ⟨before, first⟩ := earliest u shows
    exact ⟨(least first).antisymm before, shows⟩

/-- What the clock shows at an instant is read as that instant or an earlier one. -/
theorem read_wall (z : WallClock) (t : ℤ) : ∃ u ≤ t, z.read (z.wall t) = some u := by
  obtain ⟨earlier, shows⟩ := reading_wall z.apart t
  exact ⟨_, earlier, read_eq_some.mpr ⟨rfl, shows⟩⟩

theorem read_mono (first : z.read v = some t) (second : z.read w = some u) (order : v < w) : t < u := by
  obtain ⟨rfl, shown⟩ := read_eq_some.mp first
  obtain ⟨rfl, shown'⟩ := read_eq_some.mp second
  exact reading_mono z.apart order shown shown'

end WallClock

end Relational
