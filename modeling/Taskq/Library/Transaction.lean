import Mathlib.Data.List.Forall2
import Mathlib.Logic.Relation
import Mathlib.Tactic.SplitIfs

/-! Transactions over an explicit state. A call either raises an error, and the caller keeps the
state it had, or returns a value together with the state it leaves behind. -/
namespace Relational

variable {ε σ α β : Type}

@[simp] theorem seq_eq_ok {call : Except ε α} {next : α → Except ε β} {result : β} :
    (call >>= next) = .ok result ↔ ∃ value, call = .ok value ∧ next value = .ok result := by
  cases call <;> simp [bind, Except.bind]

theorem seq_eq_error {call : Except ε α} {next : α → Except ε β} {e : ε} :
    (call >>= next) = .error e ↔ call = .error e ∨ ∃ value, call = .ok value ∧ next value = .error e := by
  cases call <;> simp [bind, Except.bind]

@[simp] theorem return_eq_ok {value result : α} :
    (pure value : Except ε α) = .ok result ↔ value = result :=
  Except.ok.injEq value result ▸ Iff.rfl

@[simp] theorem mapError_eq_ok {ε' : Type} {f : ε → ε'} {call : Except ε α} {result : α} :
    call.mapError f = .ok result ↔ call = .ok result := by
  cases call <;> simp [Except.mapError]

@[simp] theorem map_eq_ok {f : α → β} {call : Except ε α} {result : β} :
    call.map f = .ok result ↔ ∃ value, call = .ok value ∧ f value = result := by
  cases call <;> simp [Except.map]

theorem map_next {γ : Type} (call : Except ε α) (next : α → Except ε β) (f : β → γ) :
    (call >>= next).map f = call >>= fun value => (next value).map f := by
  cases call <;> rfl

/-- What follows a call matters only where the call returns. -/
theorem bind_congr_ok {call : Except ε α} {f g : α → Except ε β} (same : ∀ a, call = .ok a → f a = g a) :
    (call >>= f) = (call >>= g) := by
  cases call with
  | error e => rfl
  | ok a => exact same a rfl

theorem toOption_eq_some {call : Except ε α} {a : α} : call.toOption = some a ↔ call = .ok a := by
  cases call <;> simp [Except.toOption]

/-- A call run for the state it leaves behind. -/
theorem map_snd_eq_ok {call : Except ε (α × σ)} {s : σ} :
    call.map (·.2) = .ok s ↔ ∃ answer, call = .ok (answer, s) := by
  simp

/-- Raise the error unless the condition holds. -/
def ensure (p : Prop) [Decidable p] (e : ε) : Except ε Unit := if p then .ok () else .error e

@[simp] theorem ensure_eq_ok {p : Prop} [Decidable p] {e : ε} {u : Unit} :
    ensure p e = .ok u ↔ p := by
  unfold ensure
  split_ifs with h <;> simp [h]

@[simp] theorem ensure_eq_error {p : Prop} [Decidable p] {e e' : ε} :
    ensure p e = .error e' ↔ ¬p ∧ e = e' := by
  unfold ensure
  split_ifs with h <;> simp [h]

/-- The call raises an error of a class. -/
def Raises (P : ε → Prop) (call : Except ε α) : Prop := ∃ e, call = .error e ∧ P e

section Raises

variable {P : ε → Prop}

@[simp] theorem raises_ok {value : α} : ¬Raises P (.ok value : Except ε α) := fun ⟨_, raised, _⟩ => by cases raised

@[simp] theorem raises_error {e : ε} : Raises P (.error e : Except ε α) ↔ P e :=
  ⟨fun ⟨_, raised, bad⟩ => by cases raised; exact bad, fun bad => ⟨e, rfl, bad⟩⟩

@[simp] theorem raises_seq {call : Except ε α} {next : α → Except ε β} :
    Raises P (call >>= next) ↔ Raises P call ∨ ∃ value, call = .ok value ∧ Raises P (next value) := by
  cases call <;> simp [bind, Except.bind]

@[simp] theorem raises_ensure {p : Prop} [Decidable p] {e : ε} : Raises P (ensure p e) ↔ ¬p ∧ P e := by
  unfold ensure
  split_ifs with h <;> simp [h]

@[simp] theorem raises_mapError {e : ε} {call : Except ε α} :
    Raises P (call.mapError fun _ => e) ↔ (∃ cause, call = .error cause) ∧ P e := by
  cases call <;> simp [Except.mapError]

end Raises

theorem forM_eq_ok {f : α → Except ε Unit} {l : List α} {u : Unit} :
    l.forM f = .ok u ↔ ∀ a ∈ l, f a = .ok () := by
  induction l with
  | nil => exact iff_of_true rfl fun _ => nofun
  | cons a l ih =>
    change (f a >>= fun _ => l.forM f) = .ok u ↔ _
    rw [seq_eq_ok, List.forall_mem_cons, ← ih]
    exact ⟨fun ⟨_, first, rest⟩ => ⟨first, rest⟩, fun ⟨first, rest⟩ => ⟨(), first, rest⟩⟩

theorem forall₂_right {R : α → β → Prop} {as : List α} {bs : List β}
    (h : List.Forall₂ R as bs) {b : β} (member : b ∈ bs) : ∃ a ∈ as, R a b := by
  induction h with
  | nil => cases member
  | cons head _ ih =>
    obtain rfl | present := List.mem_cons.mp member
    · exact ⟨_, by simp, head⟩
    · obtain ⟨a, inside, related⟩ := ih present
      exact ⟨a, by simp [inside], related⟩

theorem forall₂_left {R : α → β → Prop} {as : List α} {bs : List β} (all : List.Forall₂ R as bs) {a : α}
    (member : a ∈ as) : ∃ b ∈ bs, R a b := by
  obtain ⟨b, inside, related⟩ := forall₂_right all.flip member
  exact ⟨b, inside, related⟩

theorem mapM_eq_ok {f : α → Except ε β} {l : List α} {m : List β} :
    l.mapM f = .ok m ↔ List.Forall₂ (fun a b => f a = .ok b) l m := by
  induction l generalizing m with
  | nil => cases m <;> simp [pure, Except.pure]
  | cons a l ih =>
    rw [List.mapM_cons, seq_eq_ok]
    simp only [seq_eq_ok, ih, return_eq_ok]
    constructor
    · rintro ⟨b, first, m', rest, rfl⟩
      exact .cons first rest
    · intro all
      cases all with
      | cons first rest => exact ⟨_, first, _, rest, rfl⟩

/-- Run one statement per element, stopping at the first error. -/
def forEach (f : α → σ → Except ε σ) : List α → σ → Except ε σ
  | [], s => .ok s
  | a :: as, s => do
    let s ← f a s
    forEach f as s

@[simp] theorem forEach_nil (f : α → σ → Except ε σ) (s : σ) : forEach f [] s = .ok s := rfl

@[simp] theorem forEach_cons (f : α → σ → Except ε σ) (a : α) (as : List α) (s : σ) :
    forEach f (a :: as) s = f a s >>= forEach f as := rfl

/-- A block with an exception handler that only reports: an error undoes the block. -/
def guarded (c : σ → Except ε σ) (s : σ) : σ :=
  match c s with
  | .ok s' => s'
  | .error _ => s

theorem guarded_of_error {c : σ → Except ε σ} {s : σ} {e : ε} (h : c s = .error e) :
    guarded c s = s := by
  simp [guarded, h]

/-- Every successful run of a statement relates the state before it to the state after it. -/
def Moves (R : σ → σ → Prop) (c : σ → Except ε σ) : Prop := ∀ s s', c s = .ok s' → R s s'

section Moves

variable {R : σ → σ → Prop}

theorem Moves.forEach {f : α → σ → Except ε σ} (refl : ∀ s, R s s)
    (trans : ∀ {s t u}, R s t → R t u → R s u) {as : List α} (h : ∀ a ∈ as, Moves R (f a)) :
    Moves R (forEach f as) := by
  induction as with
  | nil =>
    intro s s' run
    cases run
    exact refl s
  | cons a as ih =>
    intro s s' run
    obtain ⟨t, first, rest⟩ := seq_eq_ok.mp run
    exact trans (h a (by simp) s t first) (ih (fun b hb => h b (by simp [hb])) t s' rest)

theorem Moves.guarded {c : σ → Except ε σ} (refl : ∀ s, R s s) (h : Moves R c) (s : σ) :
    R s (guarded c s) := by
  unfold Relational.guarded
  split
  · exact h s _ ‹_›
  · exact refl s

end Moves

/-- A property that each statement of a loop keeps holds after the loop. -/
theorem forEach_invariant {f : α → σ → Except ε σ} {I : σ → Prop} {as : List α}
    (step : ∀ a ∈ as, ∀ s s', I s → f a s = .ok s' → I s') {s s' : σ} (initial : I s)
    (run : forEach f as s = .ok s') : I s' := by
  have moves : Moves (fun s s' => I s → I s') (forEach f as) :=
    Moves.forEach (fun _ h => h) (fun h k i => k (h i)) fun a ha s s' run i => step a ha s s' i run
  exact moves s s' run initial

end Relational
