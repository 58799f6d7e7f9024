import Taskq.Library.Cursor

/-! Postconditions of calls that may raise: a call establishes a property when everything that it returns has it. -/
namespace Relational

variable {ε α β σ : Type} {P Q : α → Prop} {R : β → Prop}

/-- Whatever the call returns has the property. -/
def Yields (P : α → Prop) (call : Except ε α) : Prop := ∀ a, call = .ok a → P a

theorem yields_ok {a : α} (holds : P a) : Yields P (.ok a : Except ε α) := fun _ returned => Except.ok.inj returned ▸ holds

theorem yields_error {e : ε} : Yields P (.error e : Except ε α) := fun _ returned => by cases returned

theorem Yields.mono {call : Except ε α} (first : Yields P call) (weaker : ∀ a, P a → Q a) : Yields Q call :=
  fun a returned => weaker a (first a returned)

/-- A call followed by another. -/
theorem Yields.seq {call : Except ε α} {next : α → Except ε β} (first : Yields P call)
    (rest : ∀ a, P a → Yields R (next a)) : Yields R (call >>= next) := by
  intro b returned
  obtain ⟨a, run, returned⟩ := seq_eq_ok.mp returned
  exact rest a (first a run) b returned

/-- A call of which nothing is needed. -/
theorem yields_after {call : Except ε α} {next : α → Except ε β} (rest : ∀ a, Yields R (next a)) :
    Yields R (call >>= next) := Yields.seq (P := fun _ => True) (fun _ _ => trivial) fun a _ => rest a

theorem yields_ite {p : Prop} [Decidable p] {call other : Except ε α} (yes : Yields P call) (no : Yields P other) :
    Yields P (if p then call else other) := by
  split_ifs <;> assumption

theorem Yields.map {call : Except ε α} {f : α → β} (first : Yields (fun a => R (f a)) call) : Yields R (call.map f) := by
  intro b returned
  obtain ⟨a, run, rfl⟩ := map_eq_ok.mp returned
  exact first a run

theorem Yields.mapError {ε' : Type} {f : ε → ε'} {call : Except ε α} (first : Yields P call) : Yields P (call.mapError f) :=
  fun a returned => first a (mapError_eq_ok.mp returned)

/-- A property of states that every statement of a loop keeps. -/
theorem yields_forEach {I : σ → Prop} {f : α → σ → Except ε σ} (step : ∀ a s, I s → Yields I (f a s)) {as : List α} {s : σ}
    (initial : I s) : Yields I (forEach f as s) :=
  fun _ returned => forEach_invariant (fun a _ s _ holds run => step a s holds _ run) initial returned

/-- The same of a loop over fetched rows. -/
theorem yields_forRows {I : σ → Prop} {fresh : σ → α → Bool} {f : α → σ → Except ε σ} (step : ∀ a s, I s → Yields I (f a s))
    {limit : ℕ} {rows : List α} {s : σ} (initial : I s) : Yields (fun r => I r.2) (forRows fresh f limit rows s) := by
  rintro ⟨done, t⟩ returned
  obtain ⟨-, -, loop⟩ := forRows_done returned
  exact yields_forEach step initial t loop

end Relational
