import Mathlib.Data.List.Infix
import Mathlib.Data.List.Pairwise
import Mathlib.Order.Basic
import Mathlib.Tactic.Common
import Taskq.Library.Table
import Taskq.Library.Transaction

/-! Keyset pagination: a page holds the rows after a position, and the position of its last row leads to the next page. -/
namespace Keyset

variable {α P : Type} [LinearOrder P] {pos : α → P} {limit : ℕ} {c : Option P} {rows items : List α} {p : P}

/-- The rows after a position, all rows when there is none. -/
def after (pos : α → P) (c : Option P) (rows : List α) : List α := rows.filter fun r => c.all (· < pos r)

/-- The first rows after a position, and the last of them when there are more. -/
def page (pos : α → P) (limit : ℕ) (c : Option P) (rows : List α) : List α × Option α :=
  if limit < (after pos c rows).length then ((after pos c rows).take limit, ((after pos c rows).take limit).getLast?)
  else (after pos c rows, none)

/-- No two rows have one position, and the rows stand in its order. -/
def Sorted (pos : α → P) (rows : List α) : Prop := rows.Pairwise fun a b => pos a < pos b

@[simp] theorem after_none (rows : List α) : after pos none rows = rows := by simp [after]

theorem mem_after {r : α} : r ∈ after pos c rows ↔ r ∈ rows ∧ ∀ p, c = some p → p < pos r := by
  cases c <;> simp [after]

theorem Sorted.after (sorted : Sorted pos rows) (c : Option P) : Sorted pos (after pos c rows) :=
  sorted.sublist List.filter_sublist

/-- What is after the last row of a prefix is the rest. -/
theorem after_split {before rest : List α} {last : α} (sorted : Sorted pos (before ++ last :: rest)) :
    after pos (some (pos last)) (before ++ last :: rest) = rest := by
  obtain ⟨-, later, earlier⟩ := List.pairwise_append.mp sorted
  have front : ∀ r ∈ before, ¬pos last < pos r := by
    intro r member
    exact (earlier r member last List.mem_cons_self).le.not_gt
  have back : ∀ r ∈ rest, pos last < pos r := (List.pairwise_cons.mp later).1
  simp only [after, Option.all_some, List.filter_append, List.filter_cons, lt_irrefl, decide_false, Bool.false_eq_true,
    if_false]
  rw [List.filter_eq_nil_iff.mpr, List.filter_eq_self.mpr, List.nil_append]
  · intro r member
    exact decide_eq_true (back r member)
  · intro r member
    simpa using front r member

/-- Two cursors one after the other leave what the later leaves. -/
theorem after_after {q : P} (past : ∀ p, c = some p → p < q) : after pos (some q) (after pos c rows) = after pos (some q) rows := by
  cases c with
  | none => rw [after_none]
  | some p =>
    have past := past p rfl
    simp only [after, Option.all_some, List.filter_filter]
    apply List.filter_congr
    intro r _
    by_cases late : q < pos r
    · simp [late, past.trans late]
    · simp [late]

/-- The ways in which a page ends. -/
inductive Page (pos : α → P) (limit : ℕ) (c : Option P) (rows : List α) : List α → Option α → Prop
  | last (few : (after pos c rows).length ≤ limit) : Page pos limit c rows (after pos c rows) none
  | full {before rest : List α} {last : α} (split : after pos c rows = before ++ last :: rest) (more : rest ≠ [])
      (long : (before ++ [last]).length = limit) : Page pos limit c rows (before ++ [last]) (some last)

theorem page_cases (positive : 0 < limit) : Page pos limit c rows (page pos limit c rows).1 (page pos limit c rows).2 := by
  unfold page
  split_ifs with long
  · obtain ⟨n, rfl⟩ : ∃ n, limit = n + 1 := ⟨limit - 1, by omega⟩
    have lt : n < (after pos c rows).length := by omega
    have front : (after pos c rows).take (n + 1) = (after pos c rows).take n ++ [(after pos c rows)[n]] := by
      rw [List.take_succ_eq_append_getElem lt]
    have split : after pos c rows = (after pos c rows).take n ++ (after pos c rows)[n] :: (after pos c rows).drop (n + 1) := by
      rw [← List.drop_eq_getElem_cons lt, List.take_append_drop]
    have more : (after pos c rows).drop (n + 1) ≠ [] := by
      intro none'
      have := List.drop_eq_nil_iff.mp none'
      omega
    have full : ((after pos c rows).take n ++ [(after pos c rows)[n]]).length = n + 1 := by
      rw [List.length_append, List.length_take, List.length_singleton]
      omega
    rw [front, List.getLast?_concat]
    exact .full split more full
  · exact .last (by omega)

/-- Pages taken one after the other, each of the rows as they are then. -/
inductive Walk (pos : α → P) (limit : ℕ) : Option P → List (List α) → List (List α) → Prop
  | last {c : Option P} {rows items : List α} (ends : page pos limit c rows = (items, none)) : Walk pos limit c [rows] [items]
  | next {c : Option P} {last : α} {rows items : List α} {later pages : List (List α)}
      (more : page pos limit c rows = (items, some last)) (rest : Walk pos limit (some (pos last)) later pages) :
      Walk pos limit c (rows :: later) (items :: pages)

variable {views pages : List (List α)}

theorem Walk.ne_nil (walk : Walk pos limit c views pages) : pages ≠ [] := by
  cases walk with
  | last | next => exact List.cons_ne_nil _ _

theorem Page.of_eq {next : Option α} (positive : 0 < limit) (is : page pos limit c rows = (items, next)) :
    Page pos limit c rows items next := by
  have cases' : Page pos limit c rows (page pos limit c rows).1 (page pos limit c rows).2 := page_cases positive
  rwa [is] at cases'

/-- The rows of a page are after its cursor, and before the next. -/
theorem Page.bounds {next : Option α} (is : Page pos limit c rows items next) (sorted : Sorted pos rows) :
    Sorted pos items ∧ (∀ r ∈ items, ∀ p, c = some p → p < pos r) ∧ ∀ last, next = some last →
      (∀ r ∈ items, pos r ≤ pos last) ∧ ∀ p, c = some p → p < pos last := by
  cases is with
  | last few =>
    refine ⟨sorted.after c, fun r member => (mem_after.mp member).2, ?_⟩
    rintro q ⟨⟩
  | @full before rest last split more long =>
    have ordered := sorted.after c
    rw [split] at ordered
    have front : (before ++ [last]).Sublist (before ++ last :: rest) := by
      apply (List.Sublist.refl before).append
      exact List.singleton_sublist.mpr List.mem_cons_self
    have inside : ∀ r ∈ before ++ [last], r ∈ after pos c rows := by
      intro r member
      rw [split]
      exact front.subset member
    refine ⟨List.Pairwise.sublist front ordered, fun r member => (mem_after.mp (inside r member)).2, ?_⟩
    · rintro q ⟨⟩
      refine ⟨?_, fun p same => (mem_after.mp (inside last (by simp))).2 p same⟩
      intro r member
      obtain early | same := List.mem_append.mp member
      · exact ((List.pairwise_append.mp ordered).2.2 r early last List.mem_cons_self).le
      · rw [List.mem_singleton.mp same]

/-- Whatever happens to the rows between the pages, the positions of the rows listed ascend: no position is listed
twice. -/
theorem Walk.ascends (walk : Walk pos limit c views pages) (positive : 0 < limit) (sorted : ∀ rows ∈ views, Sorted pos rows) :
    Sorted pos pages.flatten ∧ ∀ r ∈ pages.flatten, ∀ p, c = some p → p < pos r := by
  induction walk with
  | last ends =>
    obtain ⟨ordered, above, -⟩ := (Page.of_eq positive ends).bounds (sorted _ List.mem_cons_self)
    simpa using ⟨ordered, above⟩
  | @next c last rows items later pages more rest ih =>
    obtain ⟨ordered, above, below⟩ := (Page.of_eq positive more).bounds (sorted _ List.mem_cons_self)
    obtain ⟨low, past⟩ := below last rfl
    obtain ⟨ordered', above'⟩ := ih fun rows member => sorted rows (List.mem_cons_of_mem _ member)
    rw [List.flatten_cons]
    constructor
    · refine List.pairwise_append.mpr ⟨ordered, ordered', ?_⟩
      intro a first b second
      exact (low a first).trans_lt (above' b second _ rfl)
    · intro r member p same
      obtain first | second := List.mem_append.mp member
      · exact above r first p same
      · exact (past p same).trans (above' r second _ rfl)

/-- A position at which all pages find a row is listed. -/
theorem Walk.misses_none (walk : Walk pos limit c views pages) (positive : 0 < limit) (sorted : ∀ rows ∈ views, Sorted pos rows)
    (there : ∀ rows ∈ views, p ∈ rows.map pos) (ahead : ∀ p', c = some p' → p' < p) : p ∈ pages.flatten.map pos := by
  induction walk with
  | @last c rows items ends =>
    obtain ⟨r, member, rfl⟩ := List.mem_map.mp (there _ List.mem_cons_self)
    have late : r ∈ after pos c rows := mem_after.mpr ⟨member, ahead⟩
    cases Page.of_eq positive ends with
    | last few => simpa using ⟨r, late, rfl⟩
  | @next c last rows items later pages more rest ih =>
    rw [List.flatten_cons, List.map_append, List.mem_append]
    by_cases beyond : pos last < p
    · right
      refine ih (fun rows member => sorted rows (List.mem_cons_of_mem _ member))
        (fun rows member => there rows (List.mem_cons_of_mem _ member)) ?_
      rintro _ ⟨⟩
      exact beyond
    · left
      obtain ⟨r, member, rfl⟩ := List.mem_map.mp (there _ List.mem_cons_self)
      have late : r ∈ after pos c rows := mem_after.mpr ⟨member, ahead⟩
      have ordered := (sorted rows List.mem_cons_self).after c
      cases Page.of_eq positive more with
      | @full before tail _ split _ long =>
        rw [split] at late ordered
        obtain ⟨-, later, -⟩ := List.pairwise_append.mp ordered
        apply List.mem_map_of_mem
        obtain front | back := List.mem_append.mp late
        · exact List.mem_append_left _ front
        · obtain rfl | behind := List.mem_cons.mp back
          · simp
          · exact absurd ((List.pairwise_cons.mp later).1 r behind) beyond

/-- While the rows stay as they are the walk ends, and lists every row after its start once and in order, all pages but the
last being full. -/
theorem walks (positive : 0 < limit) (sorted : Sorted pos rows) (c : Option P) :
    ∃ n pages, Walk pos limit c (List.replicate (n + 1) rows) pages ∧ pages.flatten = after pos c rows ∧
      ∀ items ∈ pages.dropLast, items.length = limit := by
  induction size : (after pos c rows).length using Nat.strong_induction_on generalizing c with
  | _ size' ih =>
    subst size
    have cases' : Page pos limit c rows (page pos limit c rows).1 (page pos limit c rows).2 := page_cases positive
    generalize is : page pos limit c rows = found at cases'
    obtain ⟨items, next⟩ := found
    cases cases' with
    | last few => exact ⟨0, [after pos c rows], .last is, by simp, by simp⟩
    | @full before rest last split more long =>
      have past : ∀ p, c = some p → p < pos last := by
        have member : last ∈ after pos c rows := by rw [split]; simp
        exact (mem_after.mp member).2
      have ordered := sorted.after c
      have remain : after pos (some (pos last)) rows = rest := by
        rw [← after_after past, split]
        rw [split] at ordered
        exact after_split ordered
      have fewer : (after pos (some (pos last)) rows).length < (after pos c rows).length := by
        rw [remain, split, List.length_append, List.length_cons]
        omega
      obtain ⟨n, pages, walk, all, full⟩ := ih _ fewer (some (pos last)) rfl
      refine ⟨n + 1, (before ++ [last]) :: pages, ?_, ?_, ?_⟩
      · rw [List.replicate_succ]
        exact .next is walk
      · rw [List.flatten_cons, all, remain, split, List.append_assoc, List.singleton_append]
      · have some' := walk.ne_nil
        rw [List.dropLast_cons_of_ne_nil some']
        intro page member
        obtain rfl | later := List.mem_cons.mp member
        · exact long
        · exact full page later

theorem Page.subset {next : Option α} (is : Page pos limit c rows items next) : ∀ r ∈ items, r ∈ rows := by
  intro r member
  cases is with
  | last few => exact (mem_after.mp member).1
  | @full before rest last split more long =>
    have inside : r ∈ after pos c rows := by
      rw [split]
      obtain front | same := List.mem_append.mp member
      · exact List.mem_append_left _ front
      · rw [List.mem_singleton.mp same]
        simp
    exact (mem_after.mp inside).1

/-- What a page lists was there when it was taken. -/
theorem Walk.listed (walk : Walk pos limit c views pages) (positive : 0 < limit) :
    List.Forall₂ (fun rows items => ∀ r ∈ items, r ∈ rows) views pages := by
  induction walk with
  | last ends => exact .cons (Page.of_eq positive ends).subset .nil
  | next more rest ih => exact .cons (Page.of_eq positive more).subset ih

section Keys

variable {K : Type} {key : α → K}

/-- Rows that keep their positions from view to view are told apart by their keys. -/
def Fixed (pos : α → P) (key : α → K) (views : List (List α)) : Prop :=
  ∀ rows ∈ views, ∀ rows' ∈ views, ∀ e ∈ rows, ∀ e' ∈ rows', (key e = key e' ↔ pos e = pos e')

theorem Walk.found (walk : Walk pos limit c views pages) (positive : 0 < limit) {r : α} (member : r ∈ pages.flatten) :
    ∃ rows ∈ views, r ∈ rows := by
  obtain ⟨items, page, inside⟩ := List.mem_flatten.mp member
  obtain ⟨rows, view, all⟩ := Relational.forall₂_right (walk.listed positive) page
  exact ⟨rows, view, all r inside⟩

/-- Then no key is listed twice, -/
theorem Walk.keys_nodup (walk : Walk pos limit c views pages) (positive : 0 < limit) (sorted : ∀ rows ∈ views, Sorted pos rows)
    (fixed : Fixed pos key views) : (pages.flatten.map key).Nodup := by
  refine List.pairwise_map.mpr ((walk.ascends positive sorted).1.imp_of_mem ?_)
  intro e e' member member' below same
  obtain ⟨rows, here, there⟩ := walk.found positive member
  obtain ⟨rows', here', there'⟩ := walk.found positive member'
  exact below.ne ((fixed rows here rows' here' e there e' there').mp same)

/-- and a key that is in all views is listed. -/
theorem Walk.misses_no_key (walk : Walk pos limit none views pages) (positive : 0 < limit)
    (sorted : ∀ rows ∈ views, Sorted pos rows) (fixed : Fixed pos key views) {k : K} (there : ∀ rows ∈ views, k ∈ rows.map key) :
    k ∈ pages.flatten.map key := by
  obtain ⟨first, start⟩ : ∃ first, first ∈ views := by
    cases walk with
    | last | next => exact ⟨_, List.mem_cons_self⟩
  obtain ⟨e, member, rfl⟩ := List.mem_map.mp (there first start)
  have place : pos e ∈ pages.flatten.map pos := by
    refine walk.misses_none positive sorted ?_ (fun _ none' => nomatch none')
    intro rows view
    obtain ⟨e', inside, same⟩ := List.mem_map.mp (there rows view)
    exact List.mem_map.mpr ⟨e', inside, (fixed rows view first start e' inside e member).mp same⟩
  obtain ⟨e', listed, same⟩ := List.mem_map.mp place
  obtain ⟨rows, view, inside⟩ := walk.found positive listed
  exact List.mem_map.mpr ⟨e', listed, (fixed rows view first start e' inside e member).mpr same⟩

end Keys

section Tables

open Relational

variable {κ ρ : Type} [DecidableEq κ] {le : κ × ρ → κ × ρ → Bool} {at' : κ × ρ → P}

/-- A query that orders its rows by their positions gives them sorted. -/
theorem sorted_selectBy (order : Table.RowOrder le) {t : Table κ ρ} {p : κ → ρ → Bool}
    (agrees : ∀ a ∈ t.selectBy p le, ∀ b ∈ t.selectBy p le, (le a b = true ↔ at' a ≤ at' b)) : Sorted at' (t.selectBy p le) := by
  have ordered := Table.selectBy_pairwise order t p
  refine (ordered.and (t.selectBy_nodup p)).imp_of_mem ?_
  rintro a b here there ⟨below, distinct⟩
  apply lt_of_le_of_ne ((agrees a here b there).mp below)
  intro same
  have key := order.key a b below ((agrees b there a here).mpr same.ge)
  have stored := (Table.mem_selectBy.mp here).1
  rw [key, (Table.mem_selectBy.mp there).1] at stored
  exact distinct (Prod.ext key (Option.some.inj stored).symm)

/-- A condition that says that a row is after a position leaves the rows after it. -/
theorem selectBy_after (order : Table.RowOrder le) {t : Table κ ρ} {p q : κ → ρ → Bool}
    (agrees : ∀ r ∈ t.selectBy p le, (q r.1 r.2 = true ↔ ∀ x, c = some x → x < at' r)) :
    t.selectBy (fun k r => p k r && q k r) le = after at' c (t.selectBy p le) := by
  rw [← Table.filter_selectBy order]
  apply List.filter_congr
  intro r member
  rw [Bool.eq_iff_iff, agrees r member]
  cases c with
  | none => simp
  | some x => simp

end Tables

section Calls

variable {σ C A E : Type} {call : σ → Option C → Except E (List A × Option C)} {seen : σ → List α} {item : α → A}
  {cursor : σ → α → C} {means : Option C → Option P → Prop} {states : List σ} {answers : List (List A)} {from' : Option C}

/-- Calls one after the other, each with the cursor that the call before gave. -/
inductive Follows (call : σ → Option C → Except E (List A × Option C)) : Option C → List σ → List (List A) → Prop
  | last {c : Option C} {s : σ} {items : List A} (answer : call s c = .ok (items, none)) : Follows call c [s] [items]
  | next {c : Option C} {c' : C} {s : σ} {items : List A} {later : List σ} {answers : List (List A)}
      (answer : call s c = .ok (items, some c')) (rest : Follows call (some c') later answers) :
      Follows call c (s :: later) (items :: answers)

/-- The call answers in these states with pages of what is seen there, and takes the cursors that it gives. -/
structure Serves (call : σ → Option C → Except E (List A × Option C)) (pos : α → P) (limit : ℕ) (seen : σ → List α)
    (item : α → A) (cursor : σ → α → C) (means : Option C → Option P → Prop) (states : List σ) : Prop where
  answers : ∀ s ∈ states, ∀ c p, means c p →
    call s c = .ok ((page pos limit p (seen s)).1.map item, (page pos limit p (seen s)).2.map (cursor s))
  leads : ∀ s ∈ states, ∀ r ∈ seen s, means (some (cursor s r)) (some (pos r))

theorem Serves.tail {s : σ} (serves : Serves call pos limit seen item cursor means (s :: states)) :
    Serves call pos limit seen item cursor means states :=
  ⟨fun t member => serves.answers t (List.mem_cons_of_mem _ member),
    fun t member => serves.leads t (List.mem_cons_of_mem _ member)⟩

theorem page_last {next : α} (positive : 0 < limit) (is : page pos limit c rows = (items, some next)) : next ∈ rows := by
  have full := Page.of_eq positive is
  cases full with
  | full split more long =>
    have inside : next ∈ after pos c rows := by
      rw [split]
      simp
    exact (mem_after.mp inside).1

/-- Each of the calls has answered. -/
theorem Follows.answered (follows : Follows call from' states answers) : ∀ s ∈ states, ∃ c a, call s c = .ok a := by
  induction follows with
  | last answer =>
    intro s member
    obtain rfl := List.mem_singleton.mp member
    exact ⟨_, _, answer⟩
  | next answer rest ih =>
    intro s member
    obtain rfl | later := List.mem_cons.mp member
    · exact ⟨_, _, answer⟩
    · exact ih s later

/-- Whoever follows the cursors walks through the rows. -/
theorem Follows.walk (follows : Follows call from' states answers) (positive : 0 < limit)
    (serves : Serves call pos limit seen item cursor means states) (start : means from' c) :
    ∃ found, Walk pos limit c (states.map seen) found ∧ answers = found.map (·.map item) := by
  induction follows generalizing c with
  | @last from' s items answer =>
    have served := serves.answers s List.mem_cons_self from' c start
    generalize is : page pos limit c (seen s) = found at served
    obtain ⟨rows, next⟩ := found
    rw [answer, Except.ok.injEq, Prod.mk.injEq] at served
    obtain ⟨rfl, ends⟩ := served
    cases Option.map_eq_none_iff.mp ends.symm
    exact ⟨[rows], .last is, rfl⟩
  | @next from' onward s items later answers answer rest ih =>
    have served := serves.answers s List.mem_cons_self from' c start
    generalize is : page pos limit c (seen s) = found at served
    obtain ⟨rows, next⟩ := found
    rw [answer, Except.ok.injEq, Prod.mk.injEq] at served
    obtain ⟨rfl, leads⟩ := served
    obtain ⟨last, rfl, rfl⟩ := Option.map_eq_some_iff.mp leads.symm
    obtain ⟨found, walk, rfl⟩ := ih serves.tail (serves.leads s List.mem_cons_self last (page_last positive is))
    exact ⟨rows :: found, .next is walk, rfl⟩

/-- A walk through the rows is one that the cursors make. -/
theorem Walk.follows {found : List (List α)} (walk : Walk pos limit c (states.map seen) found) (positive : 0 < limit)
    (serves : Serves call pos limit seen item cursor means states) (start : means from' c) :
    Follows call from' states (found.map (·.map item)) := by
  induction states generalizing c from' found with
  | nil => cases walk
  | cons s states ih =>
    have served := serves.answers s List.mem_cons_self from' c start
    rw [List.map_cons] at walk
    cases some' : states.map seen with
    | nil =>
      obtain rfl : states = [] := List.map_eq_nil_iff.mp some'
      cases walk with
      | last ends =>
        rw [ends] at served
        exact .last served
      | next _ rest => cases rest
    | cons _ _ =>
      rw [some'] at walk
      cases walk with
      | @next _ last _ rows _ pages more rest =>
        rw [more] at served
        rw [← some'] at rest
        exact .next served (ih rest serves.tail (serves.leads s List.mem_cons_self last (page_last positive more)))

end Calls

end Keyset
