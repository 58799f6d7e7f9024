import Mathlib.Data.List.Sublists
import Mathlib.Tactic.SplitIfs

/-! Serving candidates in order from a stock. Each candidate looked at is served when the stock allows
it and passed over otherwise, until enough are served or enough were looked at. -/
namespace Relational

variable {α ρ : Type} {serves : ρ → α → Bool} {take : ρ → α → ρ} {tries wanted : ℕ} {stock : ρ}
  {candidates : List α}

/-- The candidates that are served, looking at most at the first `tries` and serving at most
`wanted`. -/
def serve (serves : ρ → α → Bool) (take : ρ → α → ρ) : ℕ → ℕ → ρ → List α → List α
  | tries+1, wanted+1, stock, a :: candidates =>
    if serves stock a then a :: serve serves take tries wanted (take stock a) candidates
    else serve serves take tries (wanted + 1) stock candidates
  | _, _, _, _ => []

@[simp] theorem serve_zero : serve serves take 0 wanted stock candidates = [] := by
  cases wanted <;> cases candidates <;> rfl

@[simp] theorem serve_none_wanted : serve serves take tries 0 stock candidates = [] := by
  cases tries <;> cases candidates <;> rfl

@[simp] theorem serve_nil : serve serves take tries wanted stock [] = [] := by
  cases tries <;> cases wanted <;> rfl

theorem serve_cons (a : α) : serve serves take (tries + 1) (wanted + 1) stock (a :: candidates) =
    if serves stock a then a :: serve serves take tries wanted (take stock a) candidates
    else serve serves take tries (wanted + 1) stock candidates := rfl

theorem serve_sublist :
    List.Sublist (serve serves take tries wanted stock candidates) (candidates.take tries) := by
  induction candidates generalizing tries wanted stock with
  | nil => simp
  | cons a candidates ih =>
    cases tries with
    | zero => simp
    | succ tries =>
      cases wanted with
      | zero => simp
      | succ wanted =>
        rw [serve_cons, List.take_succ_cons]
        split_ifs
        · exact ih.cons_cons a
        · exact ih.cons a

theorem serve_length_le : (serve serves take tries wanted stock candidates).length ≤ wanted := by
  induction candidates generalizing tries wanted stock with
  | nil => simp
  | cons a candidates ih =>
    cases tries with
    | zero => simp
    | succ tries =>
      cases wanted with
      | zero => simp
      | succ wanted =>
        rw [serve_cons]
        split_ifs
        · exact Nat.succ_le_succ ih
        · exact ih

/-- Somebody is served exactly when one of the candidates looked at can be served at once. -/
theorem serve_ne_nil_iff (positive : 0 < wanted) :
    serve serves take tries wanted stock candidates ≠ [] ↔
      ∃ a ∈ candidates.take tries, serves stock a = true := by
  induction candidates generalizing tries with
  | nil => simp
  | cons a candidates ih =>
    cases tries with
    | zero => simp
    | succ tries =>
      obtain ⟨wanted, rfl⟩ := Nat.exists_eq_succ_of_ne_zero positive.ne'
      rw [serve_cons, List.take_succ_cons]
      split_ifs with here
      · simp [here]
      · simp [ih, here]

/-- A candidate that every stock serves comes before all that stand behind it. -/
theorem serve_before {a : α} {before after : List α} (free : ∀ stock, serves stock a = true) :
    ∃ first, List.Sublist first before ∧ (serve serves take tries wanted stock (before ++ a :: after) = first ∨
      ∃ rest, serve serves take tries wanted stock (before ++ a :: after) = first ++ a :: rest) := by
  induction before generalizing tries wanted stock with
  | nil =>
    refine ⟨[], List.Sublist.refl _, ?_⟩
    cases tries with
    | zero => simp
    | succ tries =>
      cases wanted with
      | zero => simp
      | succ wanted =>
        rw [List.nil_append, serve_cons, if_pos (free stock)]
        exact .inr ⟨_, rfl⟩
  | cons b before ih =>
    cases tries with
    | zero => exact ⟨[], List.nil_sublist _, .inl serve_zero⟩
    | succ tries =>
      cases wanted with
      | zero => exact ⟨[], List.nil_sublist _, .inl serve_none_wanted⟩
      | succ wanted =>
        rw [List.cons_append, serve_cons]
        split_ifs
        · obtain ⟨first, part, shape⟩ := @ih tries wanted (take stock b)
          refine ⟨b :: first, part.cons_cons b, shape.imp (congrArg (b :: ·)) fun ⟨rest, same⟩ => ⟨rest, ?_⟩⟩
          rw [same, List.cons_append]
        · obtain ⟨first, part, shape⟩ := @ih tries (wanted + 1) stock
          exact ⟨first, part.cons b, shape⟩

/-- Candidates that every stock serves are served as they come. -/
theorem serve_all (free : ∀ a ∈ candidates, ∀ stock, serves stock a = true) (enough : wanted ≤ tries) :
    serve serves take tries wanted stock candidates = candidates.take wanted := by
  induction candidates generalizing tries wanted stock with
  | nil => simp
  | cons a candidates ih =>
    cases wanted with
    | zero => simp
    | succ wanted =>
      cases tries with
      | zero => exact absurd enough (Nat.not_succ_le_zero wanted)
      | succ tries =>
        rw [serve_cons, if_pos (free a List.mem_cons_self stock), List.take_succ_cons,
          ih (fun b member => free b (List.mem_cons_of_mem a member)) (Nat.le_of_succ_le_succ enough)]

end Relational
