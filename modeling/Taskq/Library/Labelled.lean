import Mathlib.Data.Set.Basic
import Mathlib.Logic.Relation

/-! Sequences of labelled steps, with the labels that a sequence may use. -/
namespace Relational

variable {τ σ : Type} {T : τ → σ → σ → Prop} {S S' : Set τ} {s t u : σ}

/-- Any number of steps whose labels are in a set. -/
def Labelled (T : τ → σ → σ → Prop) (S : Set τ) : σ → σ → Prop :=
  Relation.ReflTransGen fun s t => ∃ l ∈ S, T l s t

namespace Labelled

theorem refl (s : σ) : Labelled T S s s := Relation.ReflTransGen.refl

theorem single {l : τ} (step : T l s t) (labelled : l ∈ S) : Labelled T S s t :=
  Relation.ReflTransGen.single ⟨l, labelled, step⟩

theorem trans (first : Labelled T S s t) (second : Labelled T S t u) : Labelled T S s u :=
  Relation.ReflTransGen.trans first second

theorem mono (steps : Labelled T S s t) (wider : S ⊆ S') : Labelled T S' s t :=
  Relation.ReflTransGen.mono (fun _ _ ⟨l, labelled, h⟩ => ⟨l, wider labelled, h⟩) _ _ steps

/-- What every step of the set keeps, a sequence of them keeps. -/
theorem invariant (steps : Labelled T S s t) {I : σ → Prop}
    (step : ∀ {l s t}, l ∈ S → T l s t → I s → I t) (initial : I s) : I t := by
  induction steps with
  | refl => exact initial
  | tail _ last ih =>
    obtain ⟨l, labelled, h⟩ := last
    exact step labelled h ih

/-- A reflexive and transitive relation that every step respects relates the ends. -/
theorem relates (steps : Labelled T S s t) {R : σ → σ → Prop} (refl : ∀ s, R s s)
    (trans : ∀ {s t u}, R s t → R t u → R s u) (step : ∀ {l s t}, l ∈ S → T l s t → R s t) :
    R s t :=
  steps.invariant (fun labelled h related => trans related (step labelled h)) (refl s)

end Labelled
end Relational
