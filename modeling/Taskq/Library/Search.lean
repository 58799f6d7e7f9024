import Mathlib.Data.Set.Card
import Mathlib.Order.Bounds.Defs
import Mathlib.Order.Interval.Set.LinearOrder
import Mathlib.Order.Interval.Finset.Defs

/-! Bounded search along a set of a discrete order, one member after the other. -/
namespace Relational

variable {α β ε : Type} [LinearOrder α] {S : Set α} {next : α → Option α} {accept : α → Option β}

/-- From any point a step leads to the next member of the set, as long as there is one. -/
structure Visits (next : α → Option α) (S : Set α) : Prop where
  least : ∀ {a b}, next a = some b → IsLeast {c ∈ S | a < c} b
  last : ∀ {a}, next a = none → ∀ c ∈ S, c ≤ a

/-- The first value that `accept` gives within a number of steps. -/
def search (next : α → Option α) (accept : α → Option β) (missing exhausted : ε) : ℕ → α → Except ε β
  | 0, _ => .error exhausted
  | n+1, a =>
    match next a with
    | none => .error missing
    | some b =>
      match accept b with
      | some r => .ok r
      | none => search next accept missing exhausted n b

/-- A step takes one member off the interval to a later one. -/
theorem Visits.inter_Ioo (visits : Visits next S) {a b c : α} (step : next a = some b) (later : b < c) :
    S ∩ Set.Ioo a c = insert b (S ∩ Set.Ioo b c) := by
  obtain ⟨⟨member, above⟩, least⟩ := visits.least step
  ext d
  simp only [Set.mem_inter_iff, Set.mem_Ioo, Set.mem_insert_iff]
  constructor
  · rintro ⟨inside, low, high⟩
    obtain rfl | apart := eq_or_ne d b
    · exact .inl rfl
    · exact .inr ⟨inside, lt_of_le_of_ne (least ⟨inside, low⟩) apart.symm, high⟩
  · rintro (rfl | ⟨inside, low, high⟩)
    · exact ⟨member, above, later⟩
    · exact ⟨inside, above.trans low, high⟩

/-- A search succeeds with the first member that is accepted, if fewer members come before it than steps
are allowed. -/
theorem search_eq_ok [LocallyFiniteOrder α] (visits : Visits next S) {missing exhausted : ε} {n : ℕ} {a : α}
    {r : β} : search next accept missing exhausted n a = .ok r ↔ ∃ b ∈ S, a < b ∧ accept b = some r ∧
      (∀ c ∈ S, a < c → c < b → accept c = none) ∧ (S ∩ Set.Ioo a b).ncard < n := by
  induction n generalizing a with
  | zero => simp [search]
  | succ n ih =>
    cases step : next a with
    | none =>
      simp only [search, step, reduceCtorEq, false_iff]
      rintro ⟨b, member, later, -⟩
      exact absurd later (visits.last step b member).not_gt
    | some b =>
      obtain ⟨⟨member, above⟩, least⟩ := visits.least step
      cases found : accept b with
      | some t =>
        simp only [search, step, found, Except.ok.injEq]
        constructor
        · rintro rfl
          refine ⟨b, member, above, found, fun c inside low high => absurd high (least ⟨inside, low⟩).not_gt, ?_⟩
          have none : S ∩ Set.Ioo a b = ∅ := by
            rw [Set.eq_empty_iff_forall_notMem]
            rintro c ⟨inside, low, high⟩
            exact absurd high (least ⟨inside, low⟩).not_gt
          rw [none, Set.ncard_empty]
          exact Nat.succ_pos n
        · rintro ⟨c, inside, low, taken, before, -⟩
          obtain rfl | later := (least ⟨inside, low⟩).eq_or_lt
          · exact Option.some.inj (found.symm.trans taken)
          · exact nomatch found.symm.trans (before b member above later)
      | none =>
        simp only [search, step, found, ih]
        have count {c : α} (later : b < c) : (S ∩ Set.Ioo a c).ncard = (S ∩ Set.Ioo b c).ncard + 1 := by
          rw [visits.inter_Ioo step later]
          exact Set.ncard_insert_of_notMem (by simp) ((Set.finite_Ioo b c).subset Set.inter_subset_right)
        constructor
        · rintro ⟨c, inside, later, taken, before, few⟩
          refine ⟨c, inside, above.trans later, taken, fun d there low high => ?_, by rw [count later]; omega⟩
          obtain rfl | after := (least ⟨there, low⟩).eq_or_lt
          · exact found
          · exact before d there after high
        · rintro ⟨c, inside, low, taken, before, few⟩
          obtain rfl | later := (least ⟨inside, low⟩).eq_or_lt
          · exact nomatch found.symm.trans taken
          · rw [count later] at few
            exact ⟨c, inside, later, taken, fun d there after => before d there (above.trans after), by omega⟩

end Relational
