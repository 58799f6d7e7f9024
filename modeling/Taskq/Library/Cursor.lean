import Taskq.Library.Transaction

/-! Loops of a transaction over the rows of a query that locks them. The rows are fetched in batches, and a row that
the loop has changed by the time it would be fetched is passed over and not counted. -/
namespace Relational

variable {α σ ε : Type}

/-- The first so many rows that are as the query saw them, and the rows after these. -/
def fetch (fresh : α → Bool) : ℕ → List α → List α × List α
  | 0, rows => ([], rows)
  | _, [] => ([], [])
  | n+1, row :: rows =>
    if fresh row then (row :: (fetch fresh n rows).1, (fetch fresh n rows).2) else fetch fresh (n + 1) rows

/-- The loop with a batch size and a limit: the rows that it did, and the state after them. Every round takes a row,
so there are no more rounds than rows. -/
def cursorLoop (fresh : σ → α → Bool) (body : α → σ → Except ε σ) :
    ℕ → ℕ → ℕ → List α → σ → Except ε (List α × σ)
  | 0, _, _, _, s => .ok ([], s)
  | rounds+1, size, limit, rows, s =>
    let (batch, rest) := fetch (fresh s) (min size limit) rows
    if batch.isEmpty then .ok ([], s)
    else do
      let s ← forEach body batch s
      let (more, s) ← cursorLoop fresh body rounds 50 (limit - batch.length) rest s
      .ok (batch ++ more, s)

/-- `FOR … IN SELECT … LIMIT … FOR UPDATE SKIP LOCKED LOOP`: ten rows are fetched first, and then fifty at a time. -/
def forRows (fresh : σ → α → Bool) (body : α → σ → Except ε σ) (limit : ℕ) (rows : List α) (s : σ) :
    Except ε (List α × σ) :=
  cursorLoop fresh body rows.length 10 limit rows s

/-- What is fetched comes before what is left, in the order of the rows, and is no more than was asked for. -/
theorem fetch_sublist (fresh : α → Bool) (n : ℕ) (rows : List α) :
    ((fetch fresh n rows).1 ++ (fetch fresh n rows).2).Sublist rows ∧ (fetch fresh n rows).1.length ≤ n := by
  induction rows generalizing n with
  | nil => cases n <;> simp [fetch]
  | cons row rows ih =>
    cases n with
    | zero => simp [fetch]
    | succ n =>
      unfold fetch
      split_ifs
      · obtain ⟨sub, few⟩ := ih n
        exact ⟨sub.cons_cons row, Nat.succ_le_succ few⟩
      · obtain ⟨sub, few⟩ := ih (n + 1)
        exact ⟨sub.cons row, few⟩

theorem forEach_append {body : α → σ → Except ε σ} {first second : List α} {s t u : σ} (one : forEach body first s = .ok t)
    (two : forEach body second t = .ok u) : forEach body (first ++ second) s = .ok u := by
  induction first generalizing s with
  | nil =>
    cases one
    exact two
  | cons a as ih =>
    obtain ⟨v, step, rest⟩ := seq_eq_ok.mp one
    exact seq_eq_ok.mpr ⟨v, step, ih rest⟩

theorem cursorLoop_done {fresh : σ → α → Bool} {body : α → σ → Except ε σ} {rounds size limit : ℕ} {rows done : List α}
    {s t : σ} (run : cursorLoop fresh body rounds size limit rows s = .ok (done, t)) :
    done.Sublist rows ∧ done.length ≤ limit ∧ forEach body done s = .ok t := by
  induction rounds generalizing size limit rows done s with
  | zero =>
    cases run
    exact ⟨List.nil_sublist _, Nat.zero_le _, rfl⟩
  | succ rounds ih =>
    unfold cursorLoop at run
    dsimp only at run
    split at run
    · cases run
      exact ⟨List.nil_sublist _, Nat.zero_le _, rfl⟩
    · obtain ⟨sub, few⟩ := fetch_sublist (fresh s) (min size limit) rows
      obtain ⟨mid, first, run⟩ := seq_eq_ok.mp run
      obtain ⟨⟨more, last⟩, rest, finish⟩ := seq_eq_ok.mp run
      cases finish
      obtain ⟨sub', few', loop⟩ := ih rest
      refine ⟨((List.Sublist.refl _).append sub').trans sub, ?_, forEach_append first loop⟩
      have within := Nat.le_trans few (Nat.min_le_right size limit)
      dsimp only at few' ⊢
      rw [List.length_append]
      omega

/-- A loop over fetched rows is a plain loop over some of the rows, in their order and within the limit. -/
theorem forRows_done {fresh : σ → α → Bool} {body : α → σ → Except ε σ} {limit : ℕ} {rows done : List α} {s t : σ}
    (run : forRows fresh body limit rows s = .ok (done, t)) :
    done.Sublist rows ∧ done.length ≤ limit ∧ forEach body done s = .ok t :=
  cursorLoop_done run

end Relational
