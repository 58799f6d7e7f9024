import Taskq.Library.Table

/-! Rows that are inserted one after the other, one for each of a list of orders. -/
namespace Relational

variable {κ ρ α β : Type} [DecidableEq κ]

namespace Table

/-- For each order, in turn, one row that serves it comes in under a new key. -/
inductive Inserts (serves : α → ρ → Prop) : List α → Table κ ρ → Table κ ρ → Prop
  | nil (t : Table κ ρ) : Inserts serves [] t t
  | cons {order : α} {orders : List α} {t u : Table κ ρ} {k : κ} {r : ρ} (fresh : t.get? k = none) (made : serves order r)
      (rest : Inserts serves orders (t.put k r) u) : Inserts serves (order :: orders) t u

variable {serves : α → ρ → Prop} {orders : List α} {t u : Table κ ρ} {k k' : κ} {r r' : ρ}

/-- The rows that were there stay. -/
theorem Inserts.kept (inserts : Inserts serves orders t u) (stored : t.get? k = some r) : u.get? k = some r := by
  induction inserts with
  | nil => exact stored
  | @cons _ _ t _ new _ fresh _ _ ih =>
    have other : k ≠ new := by
      rintro rfl
      cases stored.symm.trans fresh
    exact ih ((get?_put_of_ne t _ other).trans stored)

/-- Every order is served by a new row. -/
theorem Inserts.served (inserts : Inserts serves orders t u) {order : α} (member : order ∈ orders) :
    ∃ k r, t.get? k = none ∧ u.get? k = some r ∧ serves order r := by
  induction inserts with
  | nil => cases member
  | @cons first _ t _ new r fresh made rest ih =>
    obtain rfl | later := List.mem_cons.mp member
    · exact ⟨new, r, fresh, rest.kept (get?_put_self t new r), made⟩
    · obtain ⟨k, r', absent, stored, served⟩ := ih later
      rw [get?_put] at absent
      split_ifs at absent
      exact ⟨k, r', absent, stored, served⟩

/-- A row that is new serves an order. -/
theorem Inserts.origin (inserts : Inserts serves orders t u) (stored : u.get? k = some r) (absent : t.get? k = none) :
    ∃ order ∈ orders, serves order r := by
  induction inserts with
  | nil => cases stored.symm.trans absent
  | @cons first _ t _ new r' fresh made rest ih =>
    by_cases own : k = new
    · subst own
      cases stored.symm.trans (rest.kept (get?_put_self t k r'))
      exact ⟨first, List.mem_cons_self, made⟩
    · obtain ⟨order, member, served⟩ := ih stored ((get?_put_of_ne t r' own).trans absent)
      exact ⟨order, List.mem_cons_of_mem _ member, served⟩

/-- Orders with different marks are served by different rows, so that a mark occurs in one new row at most. -/
theorem Inserts.once {mark : ρ → β} {markOf : α → β} (inserts : Inserts serves orders t u)
    (marks : ∀ {order r}, serves order r → mark r = markOf order) (distinct : (orders.map markOf).Nodup)
    (stored : u.get? k = some r) (absent : t.get? k = none) (stored' : u.get? k' = some r') (absent' : t.get? k' = none)
    (same : mark r = mark r') : k = k' := by
  induction inserts with
  | nil => cases stored.symm.trans absent
  | @cons first others t u new row fresh made rest ih =>
    obtain ⟨apart, distinct⟩ := List.nodup_cons.mp distinct
    have first_only {j : κ} {s : ρ} (here : u.get? j = some s) (none' : t.get? j = none) (mine : mark s = markOf first) :
        j = new := by
      by_contra other
      obtain ⟨order, member, served⟩ := rest.origin here ((get?_put_of_ne t row other).trans none')
      exact apart (List.mem_map.mpr ⟨order, member, (marks served).symm.trans mine⟩)
    have own : u.get? new = some row := rest.kept (get?_put_self t new row)
    by_cases is : k = new
    · subst is
      cases stored.symm.trans own
      exact (first_only stored' absent' (same.symm.trans (marks made))).symm
    · by_cases is' : k' = new
      · subst is'
        cases stored'.symm.trans own
        exact first_only stored absent (same.trans (marks made))
      · exact ih distinct stored ((get?_put_of_ne t row is).trans absent) stored' ((get?_put_of_ne t row is').trans absent')

end Table

end Relational
