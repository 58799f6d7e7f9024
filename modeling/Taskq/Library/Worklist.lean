import Mathlib.Logic.Relation
import Mathlib.Data.List.Nodup
import Mathlib.Data.List.Count
import Mathlib.Algebra.Order.BigOperators.Group.List
import Mathlib.Algebra.Order.Group.Nat
import Mathlib.Algebra.GroupWithZero.Nat

/-! Depth-first closure of a stack: the elements that a graph leads to, each visited once. The elements are told apart by a
key, and there are finitely many of them. -/
namespace Relational

variable {α κ : Type} [DecidableEq κ] {key : α → κ} {children : α → List α} {stack seen nodes : List α} {n : ℕ}

/-- Take the elements off a stack: one whose key was seen is dropped, another one is kept and its children are pushed. -/
def drain (key : α → κ) (children : α → List α) : ℕ → List α → List α → List α
  | 0, _, seen => seen
  | _+1, [], seen => seen
  | n+1, a :: stack, seen =>
    if key a ∈ seen.map key then drain key children n stack seen
    else drain key children n ((children a).reverse ++ stack) (seen ++ [a])

/-- The pushes that are still to come: the children of the elements that were not seen. -/
def owed (key : α → κ) (children : α → List α) (nodes seen : List α) : ℕ :=
  (nodes.map fun a => if key a ∈ seen.map key then 0 else (children a).length).sum

/-- The elements that the graph leads to from a list. -/
def Leads (children : α → List α) (roots : List α) (a : α) : Prop :=
  ∃ r ∈ roots, Relation.ReflTransGen (fun a b => b ∈ children a) r a

/-- Whatever the children inherit holds of all that is kept. -/
theorem drain_inherits {P : α → Prop} (inherits : ∀ a, P a → ∀ b ∈ children a, P b) (pending : ∀ a ∈ stack, P a)
    (kept : ∀ a ∈ seen, P a) : ∀ a ∈ drain key children n stack seen, P a := by
  induction n generalizing stack seen with
  | zero => exact kept
  | succ n ih =>
    cases stack with
    | nil => exact kept
    | cons a stack =>
      obtain ⟨first, rest⟩ := List.forall_mem_cons.mp pending
      rw [drain]
      split_ifs
      · exact ih rest kept
      · refine ih (fun b there => ?_) fun b there => ?_
        · obtain child | later := List.mem_append.mp there
          · exact inherits a first b (List.mem_reverse.mp child)
          · exact rest b later
        · obtain earlier | self := List.mem_append.mp there
          · exact kept b earlier
          · exact List.mem_singleton.mp self ▸ first

/-- The keys stay distinct. -/
theorem drain_nodup (distinct : (seen.map key).Nodup) : ((drain key children n stack seen).map key).Nodup := by
  induction n generalizing stack seen with
  | zero => exact distinct
  | succ n ih =>
    cases stack with
    | nil => exact distinct
    | cons a stack =>
      rw [drain]
      split_ifs with old
      · exact ih distinct
      · refine ih ?_
        rw [List.map_append, List.map_singleton]
        refine List.nodup_append.mpr ⟨distinct, List.nodup_singleton _, fun k there k' self same => old ?_⟩
        rw [← List.mem_singleton.mp self, ← same]
        exact there

/-- What was seen is kept. -/
theorem subset_drain : seen ⊆ drain key children n stack seen := by
  induction n generalizing stack seen with
  | zero => exact List.Subset.refl _
  | succ n ih =>
    cases stack with
    | nil => exact List.Subset.refl _
    | cons a stack =>
      rw [drain]
      split_ifs
      · exact ih
      · exact List.Subset.trans (List.subset_append_left _ _) ih

theorem owed_append_le {a : α} : owed key children nodes (seen ++ [a]) ≤ owed key children nodes seen := by
  refine List.sum_le_sum fun b _ => ?_
  by_cases old : key b ∈ seen.map key
  · rw [if_pos old, if_pos (by rw [List.map_append]; exact List.mem_append_left _ old)]
  · rw [if_neg old]
    split_ifs
    · exact Nat.zero_le _
    · exact le_rfl

/-- An element that is seen owes its children no more. -/
theorem owed_append {a : α} (member : a ∈ nodes) (new : key a ∉ seen.map key) :
    (children a).length + owed key children nodes (seen ++ [a]) ≤ owed key children nodes seen := by
  induction nodes with
  | nil => cases member
  | cons b nodes ih =>
    have less : owed key children nodes (seen ++ [a]) ≤ owed key children nodes seen := owed_append_le
    simp only [owed, List.map_cons, List.sum_cons] at ih less ⊢
    obtain rfl | later := List.mem_cons.mp member
    · rw [if_pos (by simp), if_neg new]
      omega
    · have ih := ih later
      have first : (if key b ∈ (seen ++ [a]).map key then 0 else (children b).length) ≤
          if key b ∈ seen.map key then 0 else (children b).length := by
        by_cases old : key b ∈ seen.map key
        · simp [old]
        · rw [if_neg old]
          split_ifs <;> omega
      omega

/-- With fuel for every push the stack runs empty, and the elements that are kept contain their children. -/
theorem drain_closed (distinct : (nodes.map key).Nodup) (inside : ∀ a ∈ nodes, ∀ b ∈ children a, b ∈ nodes)
    (pending : ∀ a ∈ stack, a ∈ nodes) (kept : ∀ a ∈ seen, a ∈ nodes)
    (closed : ∀ a ∈ seen, ∀ b ∈ children a, b ∈ seen ∨ b ∈ stack)
    (fuel : stack.length + owed key children nodes seen ≤ n) :
    (∀ a ∈ stack, a ∈ drain key children n stack seen) ∧
      ∀ a ∈ drain key children n stack seen, ∀ b ∈ children a, b ∈ drain key children n stack seen := by
  induction n generalizing stack seen with
  | zero =>
    have empty : stack = [] := List.length_eq_zero_iff.mp (by omega)
    subst empty
    exact ⟨fun _ => nofun, fun a there b child => (closed a there b child).resolve_right List.not_mem_nil⟩
  | succ n ih =>
    cases stack with
    | nil => exact ⟨fun _ => nofun, fun a there b child => (closed a there b child).resolve_right List.not_mem_nil⟩
    | cons a stack =>
      obtain ⟨first, rest⟩ := List.forall_mem_cons.mp pending
      rw [List.length_cons] at fuel
      rw [drain]
      split_ifs with old
      · -- an element with a key that was seen is the one that was seen
        have self : a ∈ seen := by
          obtain ⟨b, there, same⟩ := List.mem_map.mp old
          exact List.inj_on_of_nodup_map distinct (kept b there) first same ▸ there
        have closed' (b : α) (there : b ∈ seen) (c : α) (child : c ∈ children b) : c ∈ seen ∨ c ∈ stack := by
          obtain done | later := closed b there c child
          · exact .inl done
          · obtain rfl | later := List.mem_cons.mp later
            · exact .inl self
            · exact .inr later
        obtain ⟨all, final⟩ := ih rest kept closed' (by omega)
        exact ⟨List.forall_mem_cons.mpr ⟨subset_drain self, all⟩, final⟩
      · have less : (children a).length + owed key children nodes (seen ++ [a]) ≤ owed key children nodes seen :=
          owed_append first old
        have pending' (b : α) (there : b ∈ (children a).reverse ++ stack) : b ∈ nodes := by
          obtain child | later := List.mem_append.mp there
          · exact inside a first b (List.mem_reverse.mp child)
          · exact rest b later
        have kept' (b : α) (there : b ∈ seen ++ [a]) : b ∈ nodes := by
          obtain earlier | self := List.mem_append.mp there
          · exact kept b earlier
          · exact List.mem_singleton.mp self ▸ first
        have closed' (b : α) (there : b ∈ seen ++ [a]) (c : α) (child : c ∈ children b) :
            c ∈ seen ++ [a] ∨ c ∈ (children a).reverse ++ stack := by
          obtain earlier | self := List.mem_append.mp there
          · obtain done | later := closed b earlier c child
            · exact .inl (List.mem_append_left _ done)
            · obtain rfl | later := List.mem_cons.mp later
              · exact .inl (List.mem_append_right _ List.mem_cons_self)
              · exact .inr (List.mem_append_right _ later)
          · cases List.mem_singleton.mp self
            exact .inr (List.mem_append_left _ (List.mem_reverse.mpr child))
        obtain ⟨all, final⟩ := ih pending' kept' closed' (by rw [List.length_append, List.length_reverse]; omega)
        refine ⟨List.forall_mem_cons.mpr ⟨subset_drain (List.mem_append_right _ List.mem_cons_self), fun b there => ?_⟩, final⟩
        exact all b (List.mem_append_right _ there)

/-- A stack that is drained with enough fuel leaves exactly what the graph leads to. -/
theorem mem_drain (distinct : (nodes.map key).Nodup) (inside : ∀ a ∈ nodes, ∀ b ∈ children a, b ∈ nodes)
    (pending : ∀ a ∈ stack, a ∈ nodes) (fuel : stack.length + owed key children nodes [] ≤ n) {a : α} :
    a ∈ drain key children n stack [] ↔ Leads children stack a := by
  obtain ⟨all, closed⟩ := drain_closed distinct inside pending (fun _ there => absurd there List.not_mem_nil) (fun _ there => absurd there List.not_mem_nil) fuel
  constructor
  · refine drain_inherits (P := Leads children stack) (fun a ⟨r, root, path⟩ b child => ⟨r, root, path.tail child⟩)
      (fun r root => ⟨r, root, .refl⟩) (fun _ there => absurd there List.not_mem_nil) a
  · rintro ⟨r, root, path⟩
    induction path with
    | refl => exact all r root
    | tail _ child ih => exact closed _ ih _ child

end Relational
