import Mathlib.Data.List.AList
import Mathlib.Data.List.Sort

/-! Finite tables of rows stored under a primary key. Reading and writing go through the key;
scans return the rows in storage order, which no caller may rely on without sorting them. -/
namespace Relational

variable {κ ρ : Type} [DecidableEq κ]

/-- Rows stored under their primary key, each key at most once. -/
abbrev Table (κ ρ : Type) := AList fun _ : κ => ρ

namespace Table

def empty : Table κ ρ := (∅ : AList fun _ : κ => ρ)

/-- The row stored under a key. -/
def get? (t : Table κ ρ) (k : κ) : Option ρ := AList.lookup k t

/-- Insert a row, or replace the row that the key has. -/
def put (t : Table κ ρ) (k : κ) (r : ρ) : Table κ ρ := AList.insert k r t

def remove (t : Table κ ρ) (k : κ) : Table κ ρ := AList.erase k t

/-- All rows with their keys, in storage order. -/
def rows (t : Table κ ρ) : List (κ × ρ) := t.entries.map fun e => (e.1, e.2)

/-- The rows that a predicate on key and row selects. -/
def select (t : Table κ ρ) (p : κ → ρ → Bool) : List (κ × ρ) := t.rows.filter fun e => p e.1 e.2

def count (t : Table κ ρ) (p : κ → ρ → Bool) : ℕ := (t.select p).length

/-- The selected rows in the order of a sort, as a scan with an ORDER BY clause returns them. -/
def selectBy (t : Table κ ρ) (p : κ → ρ → Bool) (le : κ × ρ → κ × ρ → Bool) : List (κ × ρ) :=
  (t.select p).insertionSort fun a b => le a b

/-- Delete every row that the predicate does not keep. -/
def keep (t : Table κ ρ) (p : κ → ρ → Bool) : Table κ ρ where
  entries := t.entries.filter fun e => p e.1 e.2
  nodupKeys := t.nodupKeys.sublist List.filter_sublist

/-- Rewrite every row in place. -/
def mapRows (t : Table κ ρ) (f : ρ → ρ) : Table κ ρ where
  entries := t.entries.map fun e => ⟨e.1, f e.2⟩
  nodupKeys := by
    have keys : (t.entries.map fun e => (⟨e.1, f e.2⟩ : Sigma fun _ : κ => ρ)).keys = t.entries.keys := by
      simp [List.keys, Function.comp_def]
    simpa [List.NodupKeys, keys] using t.nodupKeys

@[simp] theorem get?_empty (k : κ) : (empty : Table κ ρ).get? k = none := AList.lookup_empty k

@[simp] theorem get?_put_self (t : Table κ ρ) (k : κ) (r : ρ) : (t.put k r).get? k = some r :=
  AList.lookup_insert t

theorem get?_put_of_ne (t : Table κ ρ) {k k' : κ} (r : ρ) (h : k' ≠ k) :
    (t.put k r).get? k' = t.get? k' :=
  AList.lookup_insert_ne h

theorem get?_put (t : Table κ ρ) (k k' : κ) (r : ρ) :
    (t.put k r).get? k' = if k' = k then some r else t.get? k' := by
  split_ifs with h
  · subst h
    exact get?_put_self t k' r
  · exact get?_put_of_ne t r h

/-- Replacing a row leaves the same keys absent. -/
theorem get?_put_eq_none {t : Table κ ρ} {k : κ} (present : t.get? k ≠ none) (r : ρ) (k' : κ) :
    (t.put k r).get? k' = none ↔ t.get? k' = none := by
  rw [get?_put]
  split_ifs with h
  · subst h
    simp [present]
  · rfl

@[simp] theorem put_put (t : Table κ ρ) (k : κ) (r r' : ρ) : (t.put k r).put k r' = t.put k r' :=
  AList.insert_insert t

@[simp] theorem get?_remove_self (t : Table κ ρ) (k : κ) : (t.remove k).get? k = none :=
  AList.lookup_erase k t

theorem get?_remove (t : Table κ ρ) (k k' : κ) :
    (t.remove k).get? k' = if k' = k then none else t.get? k' := by
  split_ifs with h
  · subst h
    exact get?_remove_self t k'
  · exact AList.lookup_erase_ne h

theorem mem_rows {t : Table κ ρ} {k : κ} {r : ρ} : (k, r) ∈ t.rows ↔ t.get? k = some r := by
  have entry : (k, r) ∈ t.rows ↔ (⟨k, r⟩ : Sigma fun _ : κ => ρ) ∈ t.entries := by
    simp only [rows, List.mem_map, Prod.mk.injEq]
    constructor
    · rintro ⟨⟨_, _⟩, member, rfl, rfl⟩
      exact member
    · intro member
      exact ⟨_, member, rfl, rfl⟩
  exact entry.trans (AList.mem_lookup_iff).symm

omit [DecidableEq κ] in
theorem rows_nodup (t : Table κ ρ) : t.rows.Nodup := by
  have injective : Function.Injective fun e : Sigma fun _ : κ => ρ => (e.1, e.2) := by
    rintro ⟨_, _⟩ ⟨_, _⟩ h
    simpa using h
  exact (List.NodupKeys.nodup t.nodupKeys).map injective

@[simp] theorem mem_select {t : Table κ ρ} {p : κ → ρ → Bool} {k : κ} {r : ρ} :
    (k, r) ∈ t.select p ↔ t.get? k = some r ∧ p k r = true := by
  simp [select, mem_rows]

@[simp] theorem mem_selectBy {t : Table κ ρ} {p : κ → ρ → Bool} {le : κ × ρ → κ × ρ → Bool}
    {k : κ} {r : ρ} : (k, r) ∈ t.selectBy p le ↔ t.get? k = some r ∧ p k r = true := by
  simp [selectBy, List.mem_insertionSort]

/-- The only selected row is the first one. -/
theorem select_put_head {t : Table κ ρ} {p : κ → ρ → Bool} {k : κ} {r : ρ} (chosen : p k r = true)
    (only : ∀ k' r', t.get? k' = some r' → p k' r' = true → k' = k) : ((t.put k r).select p).head? = some (k, r) := by
  have all (e : κ × ρ) (member : e ∈ (t.put k r).select p) : e = (k, r) := by
    obtain ⟨stored, selected⟩ := mem_select.mp (show (e.1, e.2) ∈ _ from member)
    rw [get?_put] at stored
    split_ifs at stored with same
    · cases stored
      exact Prod.ext same rfl
    · exact absurd (only e.1 e.2 stored selected) same
  have there : (k, r) ∈ (t.put k r).select p := mem_select.mpr ⟨by simp, chosen⟩
  cases found : (t.put k r).select p with
  | nil => simp [found] at there
  | cons e rest => exact congrArg some (all e (found ▸ List.mem_cons_self))

omit [DecidableEq κ] in
theorem select_keys_nodup (t : Table κ ρ) (p : κ → ρ → Bool) :
    ((t.select p).map Prod.fst).Nodup := by
  have keys : (t.rows.map Prod.fst).Nodup := by
    have h : t.rows.map Prod.fst = t.entries.keys := by simp [rows, List.keys]
    exact h ▸ t.nodupKeys
  exact keys.sublist (List.filter_sublist.map _)

omit [DecidableEq κ] in
theorem selectBy_keys_nodup (t : Table κ ρ) (p : κ → ρ → Bool) (le : κ × ρ → κ × ρ → Bool) :
    ((t.selectBy p le).map Prod.fst).Nodup :=
  (((List.perm_insertionSort _ (t.select p)).map _).nodup_iff).mpr (t.select_keys_nodup p)

theorem get?_keep (t : Table κ ρ) (p : κ → ρ → Bool) (k : κ) :
    (t.keep p).get? k = (t.get? k).filter (p k) := by
  ext r
  rw [← mem_rows, Option.filter_eq_some_iff, ← mem_select]
  simp [rows, keep, select, List.filter_map]

@[simp] theorem get?_mapRows (t : Table κ ρ) (f : ρ → ρ) (k : κ) :
    (t.mapRows f).get? k = (t.get? k).map f := by
  ext r
  rw [← mem_rows, Option.map_eq_some_iff]
  simp only [← mem_rows]
  simp [rows, mapRows]

theorem remove_of_get?_eq_none {t : Table κ ρ} {k : κ} (h : t.get? k = none) : t.remove k = t := by
  apply AList.ext
  exact List.kerase_of_notMem_keys (AList.lookup_eq_none.mp h)

/-- A write leaves the other rows and adds the written one. -/
theorem count_put (t : Table κ ρ) (k : κ) (r : ρ) (p : κ → ρ → Bool) :
    (t.put k r).count p = (t.remove k).count p + if p k r then 1 else 0 := by
  have cons : (t.put k r).rows = (k, r) :: (t.remove k).rows := by
    simp only [rows, put, AList.insert, List.kinsert, List.map_cons]
    rfl
  simp only [count, select, cons, List.filter_cons]
  split_ifs <;> rfl

theorem count_remove {t : Table κ ρ} {k : κ} {r : ρ} (h : t.get? k = some r)
    (p : κ → ρ → Bool) : t.count p = (t.remove k).count p + if p k r then 1 else 0 := by
  rw [← count_put]
  have same : t.rows.Perm (t.put k r).rows := by
    refine (List.perm_ext_iff_of_nodup (rows_nodup t) (rows_nodup _)).mpr fun ⟨k', r'⟩ => ?_
    rw [mem_rows, mem_rows, get?_put]
    split_ifs with hk
    · rw [hk, h]
    · rfl
  exact (same.filter _).length_eq

/-- A row that replaces another one takes its place in a count. -/
theorem count_put_of_get? {t : Table κ ρ} {k : κ} {r : ρ} (stored : t.get? k = some r) (r' : ρ)
    (p : κ → ρ → Bool) :
    (t.put k r').count p + (if p k r then 1 else 0) = t.count p + if p k r' then 1 else 0 := by
  rw [count_put, count_remove stored]
  ac_rfl

theorem mem_select_keys {t : Table κ ρ} {p : κ → ρ → Bool} {k : κ} :
    k ∈ (t.select p).map Prod.fst ↔ ∃ r, t.get? k = some r ∧ p k r = true := by
  simp

/-- Two tables count the same when the same keys qualify, whatever else their rows hold. -/
theorem count_congr {t u : Table κ ρ} {p q : κ → ρ → Bool}
    (same : ∀ k, (∃ r, t.get? k = some r ∧ p k r = true) ↔ ∃ r, u.get? k = some r ∧ q k r = true) :
    t.count p = u.count q := by
  have keys : ((t.select p).map Prod.fst).Perm ((u.select q).map Prod.fst) := by
    refine (List.perm_ext_iff_of_nodup (select_keys_nodup _ _) (select_keys_nodup _ _)).mpr
      fun k => ?_
    rw [mem_select_keys, mem_select_keys]
    exact same k
  simpa [count] using keys.length_eq

/-- A table counts no more than another one when all keys that qualify there qualify here. -/
theorem count_mono {t u : Table κ ρ} {p q : κ → ρ → Bool}
    (wider : ∀ k, (∃ r, t.get? k = some r ∧ p k r = true) → ∃ r, u.get? k = some r ∧ q k r = true) :
    t.count p ≤ u.count q := by
  have keys : (t.select p).map Prod.fst ⊆ (u.select q).map Prod.fst := by
    intro k member
    rw [mem_select_keys] at member ⊢
    exact wider k member
  simpa [count] using (List.subperm_of_subset (select_keys_nodup t p) keys).length_le

theorem count_eq_zero {t : Table κ ρ} {p : κ → ρ → Bool} :
    t.count p = 0 ↔ ∀ k r, t.get? k = some r → p k r = false := by
  simp only [count, List.length_eq_zero_iff, List.eq_nil_iff_forall_not_mem, Prod.forall, mem_select,
    not_and, Bool.not_eq_true]

section Ordered

/-- A comparison under which the rows of a table stand in exactly one order. -/
structure RowOrder (le : κ × ρ → κ × ρ → Bool) : Prop where
  total : ∀ a b, le a b = true ∨ le b a = true
  trans : ∀ a b c, le a b = true → le b c = true → le a c = true
  key : ∀ a b, le a b = true → le b a = true → a.1 = b.1

variable {le : κ × ρ → κ × ρ → Bool} {t u : Table κ ρ} {p q : κ → ρ → Bool}

omit [DecidableEq κ] in
theorem selectBy_pairwise (order : RowOrder le) (t : Table κ ρ) (p : κ → ρ → Bool) :
    (t.selectBy p le).Pairwise fun a b => le a b = true := by
  have total : Std.Total fun a b : κ × ρ => le a b = true := ⟨order.total⟩
  have trans : IsTrans (κ × ρ) fun a b => le a b = true := ⟨order.trans⟩
  exact List.pairwise_insertionSort _ _

omit [DecidableEq κ] in
theorem selectBy_nodup (t : Table κ ρ) (p : κ → ρ → Bool) : (t.selectBy p le).Nodup :=
  (t.selectBy_keys_nodup p le).of_map _

/-- An ordered list of the selected rows is the selection. -/
theorem eq_selectBy (order : RowOrder le) {l : List (κ × ρ)}
    (sorted : l.Pairwise fun a b => le a b = true) (nodup : l.Nodup)
    (members : ∀ k r, (k, r) ∈ l ↔ t.get? k = some r ∧ p k r = true) : l = t.selectBy p le := by
  refine List.Perm.eq_of_pairwise (fun a b first second below above => ?_) sorted
    (selectBy_pairwise order t p) ((List.perm_ext_iff_of_nodup nodup (selectBy_nodup t p)).mpr ?_)
  · obtain ⟨here, -⟩ := (members a.1 a.2).mp first
    obtain ⟨there, -⟩ := mem_selectBy.mp (show (b.1, b.2) ∈ t.selectBy p le from second)
    have key := order.key a b below above
    rw [key, there] at here
    exact Prod.ext key (Option.some.inj here).symm
  · rintro ⟨k, r⟩
    rw [members, mem_selectBy]

theorem filter_selectBy (order : RowOrder le) (t : Table κ ρ) (p q : κ → ρ → Bool) :
    (t.selectBy p le).filter (fun e => q e.1 e.2) = t.selectBy (fun k r => p k r && q k r) le := by
  refine eq_selectBy order ((selectBy_pairwise order t p).sublist List.filter_sublist)
    ((selectBy_nodup t p).sublist List.filter_sublist) fun k r => ?_
  simp [and_assoc]

/-- Two selections are the same list when the same rows qualify. -/
theorem selectBy_congr (order : RowOrder le)
    (same : ∀ k r, t.get? k = some r ∧ p k r = true ↔ u.get? k = some r ∧ q k r = true) :
    t.selectBy p le = u.selectBy q le :=
  eq_selectBy order (selectBy_pairwise order t p) (selectBy_nodup t p) fun k r => by
    rw [mem_selectBy, same]

/-- The first of an ordered list of rows is its least row. -/
theorem head_least (order : RowOrder le) {l : List (κ × ρ)}
    (sorted : l.Pairwise fun a b => le a b = true) (rows : ∀ k r, (k, r) ∈ l → t.get? k = some r)
    {e : κ × ρ} : l.head? = some e ↔ e ∈ l ∧ ∀ e' ∈ l, le e e' = true := by
  cases l with
  | nil => simp
  | cons first rest =>
    have leads : ∀ e' ∈ first :: rest, le first e' = true := by
      intro e' member
      obtain rfl | later := List.mem_cons.mp member
      · exact (order.total _ _).elim id id
      · exact (List.pairwise_cons.mp sorted).1 e' later
    rw [List.head?_cons, Option.some.injEq]
    constructor
    · rintro rfl
      exact ⟨List.mem_cons_self, leads⟩
    · rintro ⟨member, least⟩
      have key := order.key _ _ (leads e member) (least first List.mem_cons_self)
      have here := rows e.1 e.2 member
      rw [← key, rows first.1 first.2 List.mem_cons_self] at here
      exact Prod.ext key (Option.some.inj here)

theorem selectBy_head (order : RowOrder le) {e : κ × ρ} : (t.selectBy p le).head? = some e ↔
    e ∈ t.selectBy p le ∧ ∀ e' ∈ t.selectBy p le, le e e' = true :=
  head_least order (selectBy_pairwise order t p) fun _ _ member => (mem_selectBy.mp member).1

end Ordered

end Table
end Relational
