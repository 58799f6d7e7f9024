import Taskq.Library.Table

/-! A scan with a limit sees a window of the rows that it selects: those with few enough rows ahead of them. -/
namespace Relational
namespace Table

variable {κ ρ : Type} [DecidableEq κ] {t : Table κ ρ} {p : κ → ρ → Bool} {le : κ × ρ → κ × ρ → Bool} {n : ℕ} {e : κ × ρ}

/-- How many other selected rows the order puts before a row. -/
def ahead (t : Table κ ρ) (p : κ → ρ → Bool) (le : κ × ρ → κ × ρ → Bool) (e : κ × ρ) : ℕ :=
  t.count fun k r => p k r && le (k, r) e && k ≠ e.1

omit [DecidableEq κ] in
/-- A member of a list is in its first `n` entries when it stands at one of the first `n` places. -/
theorem mem_take_split {before after : List (κ × ρ)} (new : e ∉ before) :
    e ∈ (before ++ e :: after).take n ↔ before.length < n := by
  constructor
  · intro member
    by_contra far
    have far : n ≤ before.length := by omega
    rw [List.take_append_of_le_length far] at member
    exact new (List.mem_of_mem_take member)
  · intro near
    have first : n = before.length + (n - before.length - 1 + 1) := by omega
    rw [first, List.take_length_add_append, List.take_succ_cons]
    simp

/-- The rows ahead of a selected row are those before it in the scan. -/
theorem ahead_split (order : RowOrder le) {before after : List (κ × ρ)}
    (split : t.selectBy p le = before ++ e :: after) : t.ahead p le e = before.length := by
  have sorted := selectBy_pairwise order t p
  have keys := selectBy_keys_nodup t p le
  rw [split] at sorted keys
  obtain ⟨-, later, earlier⟩ := List.pairwise_append.mp sorted
  have apart : ∀ b ∈ before ++ after, b.1 ≠ e.1 := by
    intro b member same
    rw [List.map_append, List.map_cons, List.nodup_middle, List.nodup_cons] at keys
    apply keys.1
    rw [← same, ← List.map_append]
    exact List.mem_map_of_mem member
  have counted : t.ahead p le e = ((t.selectBy p le).filter fun b => le b e && b.1 ≠ e.1).length := by
    unfold ahead count
    rw [selectBy, (List.perm_insertionSort _ _).filter _ |>.length_eq, select, select, List.filter_filter]
    congr 2
    funext b
    rw [Bool.and_assoc, Bool.and_comm]
  have front : before.filter (fun b => le b e && b.1 ≠ e.1) = before := by
    rw [List.filter_eq_self]
    intro b member
    have distinct := apart b (by simp [member])
    simp [earlier b member e (by simp), distinct]
  have back : after.filter (fun b => le b e && b.1 ≠ e.1) = [] := by
    rw [List.filter_eq_nil_iff]
    intro b member kept
    have distinct := apart b (by simp [member])
    have above : le e b = true := (List.pairwise_cons.mp later).1 b member
    have below : le b e = true := by
      rw [Bool.and_eq_true] at kept
      exact kept.1
    exact distinct (order.key b e below above)
  rw [counted, split, List.filter_append, List.filter_cons_of_neg (by simp), front, back, List.append_nil]

/-- A row is in the window exactly when it is selected and fewer rows than the limit are ahead of it. -/
theorem mem_window (order : RowOrder le) :
    e ∈ (t.selectBy p le).take n ↔ (t.get? e.1 = some e.2 ∧ p e.1 e.2 = true) ∧ t.ahead p le e < n := by
  by_cases member : e ∈ t.selectBy p le
  · have chosen := mem_selectBy.mp (show (e.1, e.2) ∈ t.selectBy p le from member)
    obtain ⟨before, after, split⟩ := List.append_of_mem member
    have distinct : (t.selectBy p le).Nodup := selectBy_nodup t p
    rw [split, List.nodup_middle, List.nodup_cons, List.mem_append, not_or] at distinct
    rw [ahead_split order split, split, mem_take_split distinct.1.1]
    exact (and_iff_right chosen).symm
  · constructor
    · intro taken
      exact absurd (List.mem_of_mem_take taken) member
    · rintro ⟨chosen, -⟩
      exact absurd (mem_selectBy.mpr chosen) member

end Table
end Relational
