import Mathlib.Data.List.Basic
import Mathlib.Logic.Function.Basic
import Mathlib.Tactic.SplitIfs

/-! A register of names. A request brings an id of its own and, if it has one, a name; a name that nobody holds goes to
the request that asks for it, and every other request for it is answered with the holder. -/
namespace Relational

variable {κ ι : Type}

namespace Register

/-- The answer to one request: the id that it leads to, and whether that is its own. -/
def answer (held : κ → Option ι) (request : ι × Option κ) : ι × Bool :=
  match request.2.bind held with
  | some holder => (holder, false)
  | none => (request.1, true)

variable [DecidableEq κ]

/-- Who holds what after a request. -/
def enter (held : κ → Option ι) (request : ι × Option κ) (name : κ) : Option ι :=
  (held name).or (if request.2 = some name then some request.1 else none)

/-- The answers to requests that come one after the other. -/
def answers (held : κ → Option ι) : List (ι × Option κ) → List (ι × Bool)
  | [] => []
  | request :: requests => answer held request :: answers (enter held request) requests

/-- Who holds what after them. -/
def after (held : κ → Option ι) (requests : List (ι × Option κ)) : κ → Option ι := requests.foldl enter held

variable {held : κ → Option ι} {request : ι × Option κ} {requests : List (ι × Option κ)} {name : κ} {id : ι} {a : ι × Bool}

@[simp] theorem answers_nil (held : κ → Option ι) : answers held [] = [] := rfl

@[simp] theorem answers_cons (held : κ → Option ι) (request : ι × Option κ) (requests : List (ι × Option κ)) :
    answers held (request :: requests) = answer held request :: answers (enter held request) requests := rfl

@[simp] theorem after_cons (held : κ → Option ι) (request : ι × Option κ) (requests : List (ι × Option κ)) :
    after held (request :: requests) = after (enter held request) requests := rfl

@[simp] theorem answers_length (held : κ → Option ι) (requests : List (ι × Option κ)) :
    (answers held requests).length = requests.length := by
  induction requests generalizing held with
  | nil => rfl
  | cons request requests ih => simp [ih]

theorem enter_of_ne (other : request.2 ≠ some name) : enter held request name = held name := by
  simp [enter, other]

theorem enter_held (holds : held name = some id) (request : ι × Option κ) : enter held request name = some id := by
  simp [enter, holds]

/-- A request for a name that is held changes nothing, and is answered with the holder. -/
theorem enter_of_held (named : request.2 = some name) (holds : held name = some id) :
    enter held request = held ∧ answer held request = (id, false) := by
  constructor
  · funext other
    by_cases own : name = other
    · rw [← own, enter, holds, Option.some_or]
    · exact enter_of_ne (by simpa [named] using own)
  · simp [answer, named, holds]

/-- A holder stays the holder. -/
theorem after_held (holds : held name = some id) (requests : List (ι × Option κ)) : after held requests name = some id := by
  induction requests generalizing held with
  | nil => exact holds
  | cons request requests ih => exact ih (enter_held holds request)

/-- The answer to a request with a name is the holder of the name from then on. -/
theorem enter_answer (named : request.2 = some name) : enter held request name = some (answer held request).1 := by
  cases holds : held name <;> simp [enter, answer, named, holds]

/-- In the end, each name is held by the id with which every request for it was answered. -/
theorem after_answer (member : (request, a) ∈ requests.zip (answers held requests)) (named : request.2 = some name) :
    after held requests name = some a.1 := by
  induction requests generalizing held with
  | nil => cases member
  | cons first requests ih =>
    rw [answers_cons, List.zip_cons_cons] at member
    obtain own | later := List.mem_cons.mp member
    · cases own
      exact after_held (enter_answer named) requests
    · exact ih later

/-- Of the requests for a name that is free, exactly one is answered with its own id; of those for a name that is held,
none. -/
theorem created_once (held : κ → Option ι) (requests : List (ι × Option κ)) (name : κ) :
    (requests.zip (answers held requests)).countP (fun e => e.1.2 = some name ∧ e.2.2) =
      if held name = none ∧ ∃ request ∈ requests, request.2 = some name then 1 else 0 := by
  induction requests generalizing held with
  | nil => simp
  | cons request requests ih =>
    rw [answers_cons, List.zip_cons_cons, List.countP_cons, ih]
    by_cases named : request.2 = some name
    · have taken : enter held request name ≠ none := by simp [enter_answer named]
      cases holds : held name with
      | none => simp [taken, named, answer, holds]
      | some id => simp [taken, named, (enter_of_held named holds).2]
    · rw [enter_of_ne named]
      simp only [named, false_and, decide_false, Bool.false_eq_true, if_false, Nat.add_zero]
      refine if_congr (and_congr_right fun _ => ?_) rfl rfl
      rw [List.exists_mem_cons_iff]
      simp [named]

end Register

end Relational
