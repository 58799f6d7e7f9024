import Mathlib.Data.List.Induction
import Mathlib.Data.List.Nodup
import Mathlib.Logic.Function.Basic

/-! Transactions on the row of one key, statement by statement under READ COMMITTED. As long as no insert fails, what
they answer and leave behind is what some serial order of them gives. -/
namespace Relational

section Serial

variable {ι σ α : Type}

/-- Calls made one after another: their answers, and the state that they leave. -/
def serially (call : ι → σ → α × σ) (order : List ι) (s : σ) : List (ι × α) × σ :=
  order.foldl (fun done i => (done.1 ++ [(i, (call i done.2).1)], (call i done.2).2)) ([], s)

theorem serially_snoc (call : ι → σ → α × σ) (order : List ι) (i : ι) (s : σ) :
    serially call (order ++ [i]) s =
      ((serially call order s).1 ++ [(i, (call i (serially call order s).2).1)],
        (call i (serially call order s).2).2) := by
  rw [serially, List.foldl_append]
  rfl

theorem serially_order (call : ι → σ → α × σ) (order : List ι) (s : σ) :
    (serially call order s).1.map Prod.fst = order := by
  induction order using List.reverseRecOn with
  | nil => rfl
  | append_singleton order j ih => rw [serially_snoc, List.map_append, ih]; rfl

/-- The results so far and the state are those of a serial order of the finished calls. -/
def Serializable (call : ι → σ → α × σ) (s : σ) (result : ι → Option α) (t : σ) : Prop :=
  ∃ order : List ι, order.Nodup ∧ (serially call order s).2 = t ∧
    ∀ i a, result i = some a ↔ (i, a) ∈ (serially call order s).1

/-- Calls of which the first makes a row and all others find it. -/
theorem serially_once {ρ : Type} {call : ι → Option ρ → α × Option ρ} {made : ρ → Prop} {creates repeats : α → ρ → Prop}
    (create : ∀ i, ∃ a v, call i none = (a, some v) ∧ made v ∧ creates a v)
    (again : ∀ i v, made v → ∃ a, call i (some v) = (a, some v) ∧ repeats a v) (order : List ι) :
    order = [] ∨ ∃ i a v rest, serially call order none = ((i, a) :: rest, some v) ∧ made v ∧ creates a v ∧
      ∀ e ∈ rest, repeats e.2 v := by
  induction order using List.reverseRecOn with
  | nil => exact .inl rfl
  | append_singleton order j ih =>
    refine .inr ?_
    rw [serially_snoc]
    obtain rfl | ⟨i, a, v, rest, done, fine, creates, repeats⟩ := ih
    · obtain ⟨a, v, run, fine, creates⟩ := create j
      refine ⟨j, a, v, [], ?_, fine, creates, fun e member => (nomatch member)⟩
      rw [show (serially call [] none).2 = none from rfl, run]
      rfl
    · obtain ⟨b, run, again⟩ := again j v fine
      refine ⟨i, a, v, rest ++ [(j, b)], ?_, fine, creates, fun e member => ?_⟩
      · rw [done, run]
        rfl
      · rcases List.mem_append.mp member with earlier | last
        · exact repeats e earlier
        · cases List.mem_singleton.mp last
          exact again

namespace Serializable

variable {call : ι → σ → α × σ} {s t : σ} {result : ι → Option α}

theorem start (call : ι → σ → α × σ) (s : σ) : Serializable call s (fun _ => none) s :=
  ⟨[], List.nodup_nil, rfl, by simp [serially]⟩

/-- One more call takes effect at once. -/
theorem finish [DecidableEq ι] (serial : Serializable call s result t) {i : ι} (unfinished : result i = none) :
    Serializable call s (Function.update result i (some (call i t).1)) (call i t).2 := by
  obtain ⟨order, nodup, rfl, results⟩ := serial
  have fresh : i ∉ order := fun member => by
    rw [← serially_order call order s, List.mem_map] at member
    obtain ⟨⟨_, a⟩, answered, rfl⟩ := member
    exact Option.some_ne_none a (((results _ a).mpr answered).symm.trans unfinished)
  refine ⟨order ++ [i], nodup.append (List.nodup_singleton i) (by simpa using fresh), by rw [serially_snoc], fun j a => ?_⟩
  rw [serially_snoc, List.mem_append, List.mem_singleton, ← results]
  by_cases same : j = i
  · subst same
    simp [unfinished, eq_comm]
  · simp [same]

/-- What holds at first and survives every call holds at the end. -/
theorem invariant (serial : Serializable call s result t) {I : σ → Prop} (initial : I s)
    (keeps : ∀ i s, I s → I (call i s).2) : I t := by
  obtain ⟨order, -, rfl, -⟩ := serial
  induction order using List.reverseRecOn with
  | nil => exact initial
  | append_singleton order i ih =>
    rw [serially_snoc]
    exact keeps i _ ih

/-- Every result is what its call answers in a state that the calls before it left. -/
theorem answered (serial : Serializable call s result t) {I : σ → Prop} (initial : I s)
    (keeps : ∀ i s, I s → I (call i s).2) {i : ι} {a : α} (finished : result i = some a) :
    ∃ u, I u ∧ a = (call i u).1 := by
  obtain ⟨order, -, -, results⟩ := serial
  have member := (results i a).mp finished
  clear results finished
  suffices I (serially call order s).2 ∧ ∀ e ∈ (serially call order s).1, ∃ u, I u ∧ e.2 = (call e.1 u).1 from
    this.2 _ member
  clear member
  induction order using List.reverseRecOn with
  | nil => exact ⟨initial, fun e member => (nomatch member)⟩
  | append_singleton order j ih =>
    rw [serially_snoc]
    refine ⟨keeps j _ ih.1, fun e member => ?_⟩
    rcases List.mem_append.mp member with earlier | last
    · exact ih.2 e earlier
    · cases List.mem_singleton.mp last
      exact ⟨_, ih.1, rfl⟩

end Serializable

end Serial

/-- What a transaction does to the row of a key. Between two statements it only computes. -/
inductive Script (ε ρ α : Type) where
  /-- It commits and answers. -/
  | answer (a : α)
  /-- It raises, and nothing that it wrote stays. -/
  | raise (e : ε)
  /-- `SELECT`. -/
  | read (next : Option ρ → Script ε ρ α)
  /-- `SELECT … FOR UPDATE`. -/
  | lock (next : Option ρ → Script ε ρ α)
  /-- `UPDATE`; it writes nothing when there is no row, and raises when the new row fails a check. -/
  | update (change : ρ → Except ε ρ) (next : Script ε ρ α)
  /-- `INSERT`. -/
  | insert (row : ρ) (next : Script ε ρ α)
  /-- `INSERT … ON CONFLICT DO NOTHING`, and whether it inserted the row. -/
  | offer (row : ρ) (next : Bool → Script ε ρ α)

namespace Script

variable {ε ρ α : Type}

/-- What is computed between two statements may raise. -/
def attempt {β : Type} (run : Except ε β) (next : β → Script ε ρ α) : Script ε ρ α :=
  match run with
  | .ok b => next b
  | .error e => raise e

/-- The script by itself, on the row that there is; an insert of a second row raises `clash`. -/
def alone (clash : ε) : Script ε ρ α → Option ρ → Except ε (α × Option ρ)
  | answer a, row => .ok (a, row)
  | raise e, _ => .error e
  | read next, row => (next row).alone clash row
  | lock next, row => (next row).alone clash row
  | update _ next, none => next.alone clash none
  | update change next, some v =>
    match change v with
    | .ok v => next.alone clash (some v)
    | .error e => .error e
  | insert v next, none => next.alone clash (some v)
  | insert _ _, some _ => .error clash
  | offer v next, none => (next true).alone clash (some v)
  | offer _ next, some v => (next false).alone clash (some v)

@[simp] theorem attempt_alone {β : Type} (clash : ε) (run : Except ε β) (next : β → Script ε ρ α) (row : Option ρ) :
    (attempt run next).alone clash row = run >>= fun b => (next b).alone clash row := by
  cases run <;> rfl

/-- The script as a call: what it answers or raises, and the row that it leaves. -/
def call (clash : ε) (script : Script ε ρ α) (row : Option ρ) : Except ε α × Option ρ :=
  match script.alone clash row with
  | .ok (a, row) => (.ok a, row)
  | .error e => (.error e, row)

/-- Nothing is left to do but to answer or to raise. -/
def ends : Script ε ρ α → Bool
  | answer _ | raise _ => true
  | _ => false

/-- The next statement is an insert that fails on a row. -/
def inserts : Script ε ρ α → Bool
  | insert _ _ => true
  | _ => false

end Script

/-- Transactions on one row in flight. -/
structure Race (ι ε ρ α : Type) where
  /-- The row as it is committed. -/
  row : Option ρ
  /-- The transaction that has locked, changed or inserted the row, and the row as it sees it. -/
  held : Option (ι × ρ)
  /-- What each transaction has still to do. -/
  script : ι → Script ε ρ α
  result : ι → Option (Except ε α)

namespace Race

variable {ι ε ρ α : Type} [DecidableEq ι]

def start (scripts : ι → Script ε ρ α) (row : Option ρ) : Race ι ε ρ α := ⟨row, none, scripts, fun _ => none⟩

/-- The version of the row that a transaction alone can see. -/
def own (r : Race ι ε ρ α) (i : ι) : Option ρ := (r.held.filter fun h => h.1 = i).map Prod.snd

/-- The transaction ends; what it held is free again. -/
def finish (r : Race ι ε ρ α) (i : ι) (row : Option ρ) (result : Except ε α) : Race ι ε ρ α :=
  { r with row := row, held := r.held.filter fun h => h.1 ≠ i, result := Function.update r.result i (some result) }

/-- Go on after a statement. A raise ends the transaction, and so does an answer when there is nothing to commit. -/
def proceed (r : Race ι ε ρ α) (i : ι) : Script ε ρ α → Race ι ε ρ α
  | .raise e => r.finish i r.row (.error e)
  | .answer a =>
    if (r.own i).isSome then { r with script := Function.update r.script i (.answer a) }
    else r.finish i r.row (.ok a)
  | next => { r with script := Function.update r.script i next }

/-- Find the row in order to lock it. A row that another transaction holds must be waited for; one that another has
inserted and not committed is not there. -/
def find (r : Race ι ε ρ α) (i : ι) : Option (Option ρ × Race ι ε ρ α) :=
  match r.held with
  | none => some (r.row, { r with held := r.row.map fun v => (i, v) })
  | some (j, v) => if j = i then some (some v, r) else if r.row.isNone then some (none, r) else none

/-- Whether the key is free for a new row; an insert in flight must be waited for. -/
def vacant (r : Race ι ε ρ α) (i : ι) : Option Bool :=
  match r.row, r.held with
  | some _, _ => some false
  | none, none => some true
  | none, some (j, _) => if j = i then some false else none

def hold (r : Race ι ε ρ α) (i : ι) (v : ρ) : Race ι ε ρ α := { r with held := some (i, v) }

/-- The next statement of a transaction, unless it is finished or has to wait. -/
def step (clash : ε) (r : Race ι ε ρ α) (i : ι) : Option (Race ι ε ρ α) :=
  if (r.result i).isSome then none
  else
    match r.script i with
    | .answer a => some (r.finish i ((r.own i).or r.row) (.ok a))
    | .raise e => some (r.finish i r.row (.error e))
    | .read next => some (r.proceed i (next ((r.own i).or r.row)))
    | .lock next => (r.find i).map fun (row, r) => r.proceed i (next row)
    | .update change next =>
      (r.find i).map fun (row, r) =>
        match row with
        | none => r.proceed i next
        | some v =>
          match change v with
          | .ok v => (r.hold i v).proceed i next
          | .error e => r.finish i r.row (.error e)
    | .insert v next =>
      (r.vacant i).map fun free => if free then (r.hold i v).proceed i next else r.finish i r.row (.error clash)
    | .offer v next =>
      (r.vacant i).map fun free => if free then (r.hold i v).proceed i (next true) else r.proceed i (next false)

/-- The next statement of a transaction is an insert, and there is a row already. -/
def clashes (r : Race ι ε ρ α) (i : ι) : Bool := (r.script i).inserts && r.row.isSome

/-- The states that statements in any order reach; `calm` says which statements may come next. -/
inductive Run (clash : ε) (calm : Race ι ε ρ α → ι → Prop) (r : Race ι ε ρ α) : Race ι ε ρ α → Prop
  | refl : Run clash calm r r
  | step {s t : Race ι ε ρ α} {i : ι} (run : Run clash calm r s) (permitted : calm s i)
      (moved : s.step clash i = some t) : Run clash calm r t

end Race

namespace Script

variable {ε ρ α : Type}

/-- A script never loses the row. -/
theorem alone_isSome {clash : ε} {script : Script ε ρ α} {row row' : Option ρ} {a : α} (there : row.isSome)
    (run : script.alone clash row = .ok (a, row')) : row'.isSome := by
  induction script generalizing row with
  | answer a =>
    cases run
    exact there
  | raise e => cases run
  | read next ih | lock next ih => exact ih _ there run
  | update change next ih =>
    obtain ⟨v, rfl⟩ := Option.isSome_iff_exists.mp there
    unfold alone at run
    split at run
    · exact ih rfl run
    · cases run
  | insert v next ih =>
    obtain ⟨v, rfl⟩ := Option.isSome_iff_exists.mp there
    cases run
  | offer v next ih =>
    obtain ⟨v, rfl⟩ := Option.isSome_iff_exists.mp there
    exact ih _ rfl run

/-- After a statement that found no row, the rest `t` of the script `c` can do without one: it ends, it goes on to
insert, or it does to a row made meanwhile what the whole script would do to it. -/
def Indifferent (clash : ε) (made : ρ → Prop) (c t : Script ε ρ α) : Prop :=
  t.ends = true ∨ t.inserts = true ∨ ∀ v, made v → t.alone clash (some v) = c.alone clash (some v)

/-- The script does not depend on a row that it has not locked. -/
def Steady (clash : ε) (made : ρ → Prop) (c : Script ε ρ α) : Script ε ρ α → Prop
  | answer _ | raise _ | insert _ _ => True
  | read next => ∀ row, (next row).ends = true
  | lock next => Indifferent clash made c (next none) ∧ Steady clash made c (next none)
  | update _ next => Indifferent clash made c next ∧ Steady clash made c next
  | offer _ next => (∀ v, (next false).alone clash (some v) = c.alone clash (some v)) ∧ Steady clash made c (next false)

/-- The rest of the script `c` while it holds nothing. -/
inductive Free (clash : ε) (made : ρ → Prop) (c : Script ε ρ α) (first row : Option ρ) : Script ε ρ α → Prop
  | ready : Free clash made c first row c
  /-- It found no row, and there was none before. -/
  | missed {t : Script ε ρ α} (absent : first = none) (same : t.alone clash none = c.alone clash none)
      (later : t.inserts = true ∨ ∀ v, made v → t.alone clash (some v) = c.alone clash (some v)) :
      Free clash made c first row t
  /-- It has met a row. -/
  | met {t : Script ε ρ α} (there : row.isSome) (same : ∀ v, t.alone clash (some v) = c.alone clash (some v)) :
      Free clash made c first row t

theorem Free.congr {clash : ε} {made : ρ → Prop} {c t : Script ε ρ α} {first row row' : Option ρ}
    (free : Free clash made c first row t) (stays : row.isSome → row'.isSome) : Free clash made c first row' t := by
  cases free with
  | ready => exact .ready
  | missed absent same later => exact .missed absent same later
  | met there same => exact .met (stays there) same

/-- Unless it is about to fail, a script that holds nothing does now what the whole script would do. -/
theorem Free.now {clash : ε} {made : ρ → Prop} {c t : Script ε ρ α} {first row : Option ρ}
    (free : Free clash made c first row t) (fine : first = none → ∀ v, row = some v → made v)
    (calm : (t.inserts && row.isSome) = false) : t.alone clash row = c.alone clash row := by
  cases free with
  | ready => rfl
  | missed absent same later =>
    cases row with
    | none => exact same
    | some v =>
      rcases later with insert | later
      · simp [insert] at calm
      · exact later v (fine absent v rfl)
  | met there same =>
    obtain ⟨v, rfl⟩ := Option.isSome_iff_exists.mp there
    exact same v

/-- The script inserts only where there is no row. -/
def Polite : Script ε ρ α → Prop
  | answer _ | raise _ => True
  | read next | lock next => ∀ row, Polite (next row)
  | update _ next => Polite next
  | insert _ _ => False
  | offer _ next => ∀ free, Polite (next free)

end Script

namespace Race

variable {ι ε ρ α : Type} [DecidableEq ι] {clash : ε} {made : ρ → Prop} {scripts : ι → Script ε ρ α} {first : Option ρ}
  {r s : Race ι ε ρ α} {i : ι}

theorem own_eq_some {v : ρ} : r.own i = some v ↔ r.held = some (i, v) := by
  simp only [own, Option.map_eq_some_iff, Option.filter_eq_some_iff, decide_eq_true_eq]
  constructor
  · rintro ⟨⟨j, v⟩, ⟨held, rfl⟩, rfl⟩
    exact held
  · intro held
    exact ⟨(i, v), ⟨held, rfl⟩, rfl⟩

/-- A transaction in flight has left to do what its whole script would do. -/
structure Follows (clash : ε) (made : ρ → Prop) (scripts : ι → Script ε ρ α) (first : Option ρ) (r : Race ι ε ρ α)
    (j : ι) : Prop where
  holder : ∀ v, r.held = some (j, v) → (r.script j).alone clash (some v) = (scripts j).alone clash r.row
  free : r.own j = none → (scripts j).Free clash made first r.row (r.script j) ∧
    (scripts j).Steady clash made (r.script j)

/-- The finished transactions are serializable, and all others but those of `busy` follow their scripts. -/
structure Sound (clash : ε) (made : ρ → Prop) (scripts : ι → Script ε ρ α) (first : Option ρ) (busy : ι → Prop)
    (r : Race ι ε ρ α) : Prop where
  serial : Serializable (fun i => (scripts i).call clash) first r.result r.row
  stays : first.isSome → r.row.isSome
  fine : first = none → ∀ v, r.row = some v → made v
  active : ∀ j v, r.held = some (j, v) → r.result j = none
  follows : ∀ j, ¬busy j → r.result j = none → r.Follows clash made scripts first j

/-- The rows that the scripts make where there was none. -/
def Makes (clash : ε) (made : ρ → Prop) (scripts : ι → Script ε ρ α) : Prop :=
  ∀ i row a v, (∀ u, row = some u → made u) → (scripts i).alone clash row = .ok (a, some v) → made v

theorem Sound.finish (sound : r.Sound clash made scripts first (· = i)) (makes : Makes clash made scripts)
    (unfinished : r.result i = none) {row : Option ρ} {result : Except ε α}
    (call : (scripts i).call clash r.row = (result, row)) (holds : row = r.row ∨ ∃ v, r.held = some (i, v)) :
    (r.finish i row result).Sound clash made scripts first fun _ => False := by
  have stays : r.row.isSome → row.isSome := fun there => by
    unfold Script.call at call
    split at call
    · rename_i run
      cases call
      exact Script.alone_isSome there run
    · cases call
      exact there
  refine ⟨?_, fun there => stays (sound.stays there), fun absent v same => ?_, fun j v held => ?_, fun j _ open' => ?_⟩
  · have next := sound.serial.finish unfinished
    rw [call] at next
    exact next
  · unfold Script.call at call
    split at call
    · rename_i a row' run
      cases call
      rw [show row = some v from same] at run
      exact makes i r.row a v (sound.fine absent) run
    · cases call
      exact sound.fine absent v same
  · obtain ⟨held, other⟩ := Option.filter_eq_some_iff.mp held
    have other : j ≠ i := of_decide_eq_true other
    exact (Function.update_of_ne other _ _).trans (sound.active j v held)
  · have other : j ≠ i := fun same => by
      subst same
      simp [Race.finish] at open'
    obtain ⟨holder, free⟩ := sound.follows j other ((Function.update_of_ne other _ _).symm.trans open')
    have kept (v : ρ) : (r.finish i row result).held = some (j, v) ↔ r.held = some (j, v) := by
      simp only [Race.finish, Option.filter_eq_some_iff, other, decide_true, ne_eq, not_false_eq_true, and_true]
    refine ⟨fun v held => ?_, fun none' => ?_⟩
    · have held := (kept v).mp held
      refine (holder v held).trans ?_
      rcases holds with rfl | ⟨u, own⟩
      · rfl
      · cases held.symm.trans own
        exact absurd rfl other
    · have none : r.own j = none := by
        refine Option.eq_none_iff_forall_ne_some.mpr fun v own => ?_
        rw [own_eq_some.mpr ((kept v).mpr (own_eq_some.mp own))] at none'
        cases none'
      obtain ⟨free, steady⟩ := free none
      exact ⟨free.congr stays, steady⟩

/-- The transaction goes on with the rest of its script. -/
theorem Sound.resume (sound : r.Sound clash made scripts first (· = i)) {t : Script ε ρ α}
    (holder : ∀ v, r.held = some (i, v) → t.alone clash (some v) = (scripts i).alone clash r.row)
    (free : r.own i = none → (scripts i).Free clash made first r.row t ∧ (scripts i).Steady clash made t) :
    ({ r with script := Function.update r.script i t } : Race ι ε ρ α).Sound clash made scripts first fun _ => False := by
  refine ⟨sound.serial, sound.stays, sound.fine, sound.active, fun j _ open' => ?_⟩
  by_cases same : j = i
  · subst same
    refine ⟨fun v held => ?_, fun none => ?_⟩
    · simpa using holder v held
    · simpa using free none
  · obtain ⟨holder, free⟩ := sound.follows j same open'
    refine ⟨fun v held => ?_, fun none => ?_⟩
    · simpa [same] using holder v held
    · simpa [same] using free none

theorem Sound.proceed (sound : r.Sound clash made scripts first (· = i)) (makes : Makes clash made scripts)
    (unfinished : r.result i = none) {t : Script ε ρ α}
    (same : t.alone clash ((r.own i).or r.row) = (scripts i).alone clash r.row)
    (free : r.own i = none → t.ends = false → (scripts i).Free clash made first r.row t ∧ (scripts i).Steady clash made t) :
    (r.proceed i t).Sound clash made scripts first fun _ => False := by
  have holder (v : ρ) (held : r.held = some (i, v)) : t.alone clash (some v) = (scripts i).alone clash r.row := by
    rwa [own_eq_some.mpr held] at same
  cases t with
  | raise e => exact sound.finish makes unfinished (by unfold Script.call; rw [← same]; rfl) (.inl rfl)
  | answer a =>
    unfold Race.proceed
    split_ifs with own
    · exact sound.resume holder fun none => by simp [none] at own
    · have none : r.own i = none := Option.not_isSome_iff_eq_none.mp own
      rw [none, Option.none_or] at same
      exact sound.finish makes unfinished (by unfold Script.call; rw [← same]; rfl) (.inl rfl)
  | read | lock | update | insert | offer => exact sound.resume holder fun none => free none rfl

/-- The transaction takes the row that nobody else holds. -/
theorem Sound.hold (sound : r.Sound clash made scripts first (· = i)) (unfinished : r.result i = none)
    (mine : ∀ j u, r.held = some (j, u) → j = i) (v : ρ) :
    (r.hold i v).Sound clash made scripts first (· = i) := by
  refine ⟨sound.serial, sound.stays, sound.fine, fun j u held => ?_, fun j other open' => ⟨fun u held => ?_, fun _ => ?_⟩⟩
  · cases held
    exact unfinished
  · cases held
    exact absurd rfl other
  · refine (sound.follows j other open').free (Option.eq_none_iff_forall_ne_some.mpr fun u own => ?_)
    exact other (mine j u (own_eq_some.mp own))

theorem Sound.find (sound : r.Sound clash made scripts first (· = i)) (unfinished : r.result i = none)
    {row : Option ρ} (found : r.find i = some (row, s)) :
    s.Sound clash made scripts first (· = i) ∧ s.row = r.row ∧ s.result = r.result ∧ row = (r.own i).or r.row ∧
      (∀ v, row = some v → s.held = some (i, v)) ∧ (row = none → s = r) := by
  unfold Race.find at found
  split at found
  · rename_i free
    have own : r.own i = none := by simp [own, free]
    rw [own]
    obtain ⟨here, held, script, result⟩ := r
    cases free
    cases here with
    | none =>
      cases found
      exact ⟨sound, rfl, rfl, rfl, fun v h => (nomatch h), fun _ => rfl⟩
    | some v =>
      cases found
      refine ⟨sound.hold unfinished (fun j u held => (nomatch held)) v, rfl, rfl, rfl, fun u h => ?_, fun h => (nomatch h)⟩
      cases h
      rfl
  · rename_i j v held
    split_ifs at found with same absent
    · subst same
      cases found
      refine ⟨sound, rfl, rfl, by rw [own_eq_some.mpr held]; rfl, fun u h => ?_, fun h => (nomatch h)⟩
      cases h
      exact held
    · cases found
      have none : r.own i = none := Option.eq_none_iff_forall_ne_some.mpr fun u own => by
        cases held.symm.trans (own_eq_some.mp own)
        exact same rfl
      refine ⟨sound, rfl, rfl, ?_, fun u h => (nomatch h), fun _ => rfl⟩
      rw [none, Option.isNone_iff_eq_none.mp absent]
      rfl

/-- Until its insert fails a transaction does what its whole script would do to the committed row. -/
theorem Sound.now (sound : r.Sound clash made scripts first fun _ => False) (unfinished : r.result i = none)
    (calm : r.clashes i = false) :
    (r.script i).alone clash ((r.own i).or r.row) = (scripts i).alone clash r.row := by
  obtain ⟨holder, free⟩ := sound.follows i not_false unfinished
  cases own : r.own i with
  | some v => exact holder v (own_eq_some.mp own)
  | none => exact (free own).1.now sound.fine calm

/-- A statement found no row. -/
theorem Sound.missed (sound : r.Sound clash made scripts first (· = i)) (makes : Makes clash made scripts)
    (unfinished : r.result i = none) {t : Script ε ρ α} (none' : r.own i = none) (absent : r.row = none)
    (same : t.alone clash none = (scripts i).alone clash r.row)
    (indifferent : (scripts i).Indifferent clash made t) (steady : (scripts i).Steady clash made t) :
    (r.proceed i t).Sound clash made scripts first fun _ => False := by
  have before : first = none := Option.not_isSome_iff_eq_none.mp fun there => by
    have stays := sound.stays there
    rw [absent] at stays
    cases stays
  refine sound.proceed makes unfinished (by rw [none', absent]; exact same.trans (by rw [absent])) fun _ more =>
    ⟨.missed before (same.trans (by rw [absent])) ?_, steady⟩
  rcases indifferent with ended | later
  · rw [ended] at more
    cases more
  · exact later

theorem occupied (found : r.vacant i = some false) : ∃ u, (r.own i).or r.row = some u := by
  unfold vacant at found
  split at found
  · rename_i there
    rw [there]
    cases r.own i with
    | none => exact ⟨_, rfl⟩
    | some u => exact ⟨u, rfl⟩
  · cases found
  · rename_i j u absent held
    split_ifs at found with same
    subst same
    exact ⟨u, by rw [own_eq_some.mpr held]; rfl⟩

/-- The transaction has inserted the row. -/
theorem Sound.inserted (sound : r.Sound clash made scripts first (· = i)) (makes : Makes clash made scripts)
    (unfinished : r.result i = none) (free : r.vacant i = some true) {v : ρ} {next t : Script ε ρ α}
    (now : t.alone clash ((r.own i).or r.row) = (scripts i).alone clash r.row)
    (goes : t.alone clash none = next.alone clash (some v)) :
    ((r.hold i v).proceed i next).Sound clash made scripts first fun _ => False := by
  obtain ⟨absent, nobody⟩ : r.row = none ∧ r.held = none := by
    unfold vacant at free
    split at free
    · cases free
    · rename_i absent nobody
      exact ⟨absent, nobody⟩
    · split_ifs at free
      cases free
  have none' : r.own i = none := by simp [own, nobody]
  have own : (r.hold i v).own i = some v := own_eq_some.mpr rfl
  rw [none', absent] at now
  refine (sound.hold unfinished (fun j u held => by rw [nobody] at held; cases held) v).proceed makes unfinished
    (by rw [own]; exact goes.symm.trans (now.trans (by rw [← absent]; rfl))) fun none => ?_
  rw [own] at none
  cases none

/-- One statement keeps a race sound when it is not an insert that fails. -/
theorem Sound.step (sound : r.Sound clash made scripts first fun _ => False) (makes : Makes clash made scripts)
    (calm : r.clashes i = false) (moved : r.step clash i = some s) : s.Sound clash made scripts first fun _ => False := by
  unfold Race.step at moved
  split_ifs at moved with finished
  have unfinished : r.result i = none := Option.not_isSome_iff_eq_none.mp finished
  have now := sound.now unfinished calm
  have free := (sound.follows i not_false unfinished).free
  have busy : r.Sound clash made scripts first (· = i) :=
    ⟨sound.serial, sound.stays, sound.fine, sound.active, fun j _ => sound.follows j not_false⟩
  dsimp only at moved
  split at moved
  · rename_i a rest
    rw [rest] at now
    cases moved
    refine busy.finish makes unfinished (by unfold Script.call; rw [← now]; rfl) ?_
    cases own : r.own i with
    | none => exact .inl rfl
    | some v => exact .inr ⟨v, own_eq_some.mp own⟩
  · rename_i e rest
    rw [rest] at now
    cases moved
    exact busy.finish makes unfinished (by unfold Script.call; rw [← now]; rfl) (.inl rfl)
  · rename_i next rest
    rw [rest] at now free
    cases moved
    refine busy.proceed makes unfinished now fun none more => ?_
    rw [(free none).2] at more
    cases more
  · rename_i next rest
    rw [rest] at now free
    obtain ⟨⟨row, r'⟩, found, moved⟩ := Option.map_eq_some_iff.mp moved
    cases moved
    obtain ⟨busy, same, results, seen, holds, alone⟩ := busy.find unfinished found
    rw [← seen] at now
    cases row with
    | none =>
      cases alone rfl
      obtain ⟨none, absent⟩ := Option.or_eq_none_iff.mp seen.symm
      exact busy.missed makes unfinished none absent now (free none).2.1 (free none).2.2
    | some v =>
      have own : r'.own i = some v := own_eq_some.mpr (holds v rfl)
      refine busy.proceed makes (results ▸ unfinished) (by rw [own, same]; exact now) fun none => ?_
      rw [own] at none
      cases none
  · rename_i change next rest
    rw [rest] at now free
    obtain ⟨⟨row, r'⟩, found, moved⟩ := Option.map_eq_some_iff.mp moved
    obtain ⟨busy, same, results, seen, holds, alone⟩ := busy.find unfinished found
    have unfinished : r'.result i = none := results ▸ unfinished
    rw [← seen] at now
    cases row with
    | none =>
      cases alone rfl
      cases moved
      obtain ⟨none, absent⟩ := Option.or_eq_none_iff.mp seen.symm
      exact busy.missed makes unfinished none absent now (free none).2.1 (free none).2.2
    | some v =>
      rw [← same] at now
      cases changed : change v with
      | error e =>
        simp only [changed] at moved
        cases moved
        simp only [Script.alone, changed] at now
        exact busy.finish makes unfinished (by unfold Script.call; rw [← now]) (.inl rfl)
      | ok v' =>
        simp only [changed] at moved
        cases moved
        simp only [Script.alone, changed] at now
        have mine (j : ι) (u : ρ) (held : r'.held = some (j, u)) : j = i := by
          cases (holds v rfl).symm.trans held
          rfl
        have own : (r'.hold i v').own i = some v' := own_eq_some.mpr rfl
        refine (busy.hold unfinished mine v').proceed makes unfinished (by rw [own]; exact now) fun none => ?_
        rw [own] at none
        cases none
  · rename_i v next rest
    rw [rest] at now
    obtain ⟨vacant, found, moved⟩ := Option.map_eq_some_iff.mp moved
    cases vacant with
    | true =>
      cases moved
      exact busy.inserted makes unfinished found now rfl
    | false =>
      cases moved
      obtain ⟨u, sees⟩ := occupied found
      have blind : r.row = none := by
        unfold clashes at calm
        rw [rest] at calm
        exact Option.not_isSome_iff_eq_none.mp fun there => by simp [Script.inserts, there] at calm
      rw [sees] at now
      exact busy.finish makes unfinished (by unfold Script.call; rw [← now]; rfl) (.inl rfl)
  · rename_i v next rest
    rw [rest] at now free
    obtain ⟨vacant, found, moved⟩ := Option.map_eq_some_iff.mp moved
    cases vacant with
    | true =>
      cases moved
      exact busy.inserted makes unfinished found now rfl
    | false =>
      cases moved
      obtain ⟨u, sees⟩ := occupied found
      rw [sees] at now
      refine busy.proceed makes unfinished (by rw [sees]; exact now) fun none _ => ?_
      rw [none, Option.none_or] at sees
      obtain ⟨-, known, steady⟩ := free none
      exact ⟨.met (by rw [sees]; rfl) known, steady⟩

/-- In every run without an insert that fails, the results so far and the committed row are those of a serial order. -/
theorem Run.serializable {row : Option ρ} (makes : Makes clash made scripts)
    (steady : ∀ i, (scripts i).Steady clash made (scripts i))
    (run : Run clash (fun r i => r.clashes i = false) (start scripts row) r) :
    Serializable (fun i => (scripts i).call clash) row r.result r.row := by
  suffices r.Sound clash made scripts row fun _ => False from this.serial
  induction run with
  | refl =>
    refine ⟨.start _ row, id, fun absent v there => (nomatch absent.symm.trans there), fun j v held => (nomatch held), fun j _ _ => ?_⟩
    exact ⟨fun v held => (nomatch held), fun _ => ⟨.ready, steady j⟩⟩
  | step _ calm moved ih => exact ih.step makes calm moved

theorem find_script {row : Option ρ} (found : r.find i = some (row, s)) : s.script = r.script := by
  unfold Race.find at found
  split at found
  · cases found
    rfl
  · split_ifs at found <;> cases found <;> rfl

theorem proceed_polite {t : Script ε ρ α} (polite : ∀ j, (r.script j).Polite) (next : t.Polite) (j : ι) :
    ((r.proceed i t).script j).Polite := by
  have update : (Function.update r.script i t j).Polite := by
    by_cases same : j = i
    · subst same
      simpa using next
    · simpa [same] using polite j
  cases t with
  | raise e => exact polite j
  | answer a =>
    unfold Race.proceed
    split_ifs
    · exact update
    · exact polite j
  | read | lock | update | insert | offer => exact update

theorem step_polite (polite : ∀ j, (r.script j).Polite) (moved : r.step clash i = some s) (j : ι) :
    (s.script j).Polite := by
  have own := polite i
  unfold Race.step at moved
  split_ifs at moved
  dsimp only at moved
  split at moved
  · cases moved
    exact polite j
  · cases moved
    exact polite j
  · rename_i next rest
    rw [rest] at own
    cases moved
    exact proceed_polite polite (own _) j
  · rename_i next rest
    rw [rest] at own
    obtain ⟨⟨row, r'⟩, found, moved⟩ := Option.map_eq_some_iff.mp moved
    cases moved
    exact proceed_polite (fun j => by rw [find_script found]; exact polite j) (own _) j
  · rename_i change next rest
    rw [rest] at own
    obtain ⟨⟨row, r'⟩, found, moved⟩ := Option.map_eq_some_iff.mp moved
    have polite : ∀ j, (r'.script j).Polite := fun j => by rw [find_script found]; exact polite j
    have next' : next.Polite := own
    cases row with
    | none =>
      cases moved
      exact proceed_polite (t := next) polite next' j
    | some v =>
      dsimp only at moved
      split at moved <;> cases moved
      · exact proceed_polite (r := r'.hold i _) polite next' j
      · exact polite j
  · rename_i v next rest
    rw [rest] at own
    exact own.elim
  · rename_i v next rest
    rw [rest] at own
    obtain ⟨vacant, -, moved⟩ := Option.map_eq_some_iff.mp moved
    have after : ∀ free, (next free).Polite := own
    cases vacant with
    | true =>
      cases moved
      exact proceed_polite (r := r.hold i v) polite (after true) j
    | false =>
      cases moved
      exact proceed_polite polite (after false) j

/-- Of polite scripts no insert fails. -/
theorem Run.polite {row : Option ρ} {calm : Race ι ε ρ α → ι → Prop} (polite : ∀ i, (scripts i).Polite)
    (run : Run clash calm (start scripts row) r) :
    (∀ i, (r.script i).Polite) ∧ Run clash (fun r i => r.clashes i = false) (start scripts row) r := by
  induction run with
  | refl => exact ⟨polite, .refl⟩
  | @step s t i _ _ moved ih =>
    obtain ⟨now, run⟩ := ih
    refine ⟨step_polite now moved, .step run ?_ moved⟩
    have own := now i
    unfold clashes
    cases rest : s.script i with
    | insert v next =>
      rw [rest] at own
      exact own.elim
    | answer | raise | read | lock | update | offer => rfl

/-- Statements of the transactions in this order, each of them permitted where it comes. -/
def play (clash : ε) (permitted : Race ι ε ρ α → ι → Bool) (r : Race ι ε ρ α) (order : List ι) :
    Option (Race ι ε ρ α) :=
  order.foldlM (fun r i => if permitted r i then r.step clash i else none) r

theorem Run.play {calm : Race ι ε ρ α → ι → Prop} {permitted : Race ι ε ρ α → ι → Bool} {order : List ι}
    (allows : ∀ r i, permitted r i = true → calm r i) (played : r.play clash permitted order = some s) :
    Run clash calm r s := by
  suffices ∀ t, Run clash calm t r → Run clash calm t s from this r .refl
  induction order generalizing r with
  | nil =>
    cases played
    exact fun _ run => run
  | cons i order ih =>
    unfold Race.play at played
    rw [List.foldlM_cons] at played
    obtain ⟨u, moved, rest⟩ := Option.bind_eq_some_iff.mp played
    split_ifs at moved with fine
    exact fun t run => ih rest t (.step run (allows r i fine) moved)

omit [DecidableEq ι] in
/-- Scripts that ask for the same row where there is none: once one of them has answered, one has made the row and every
other that is finished has found it. -/
theorem Serializable.once {creates repeats : α → ρ → Prop} {result : ι → Option (Except ε α)}
    {row : Option ρ} (serial : Serializable (fun i => (scripts i).call clash) none result row)
    (makes : ∀ i j r, (scripts i).alone clash none = .ok r →
      ∃ a v, (scripts j).alone clash none = .ok (a, some v) ∧ creates a v ∧
        ∀ k, ∃ b, (scripts k).alone clash (some v) = .ok (b, some v) ∧ repeats b v)
    {i : ι} {a : α} (finished : result i = some (.ok a)) :
    ∃ i a v, row = some v ∧ result i = some (.ok a) ∧ creates a v ∧
      ∀ j r, j ≠ i → result j = some r → ∃ b, r = .ok b ∧ repeats b v := by
  by_cases fails : ∀ i, ∃ e, (scripts i).alone clash none = .error e
  · have refused (i : ι) (s : Option ρ) (absent : s = none) : ∃ e, (scripts i).call clash s = (.error e, none) := by
      obtain ⟨e, run⟩ := fails i
      subst absent
      exact ⟨e, by unfold Script.call; rw [run]⟩
    obtain ⟨u, absent, same⟩ := serial.answered (I := (· = none)) rfl (fun i s absent => by
      obtain ⟨e, run⟩ := refused i s absent
      exact congrArg Prod.snd run) finished
    obtain ⟨e, run⟩ := refused i u absent
    rw [run] at same
    cases same
  · obtain ⟨first, works⟩ := not_forall.mp fails
    obtain ⟨r, run⟩ : ∃ r, (scripts first).alone clash none = .ok r := by
      cases run : (scripts first).alone clash none with
      | error e => exact absurd ⟨e, run⟩ works
      | ok r => exact ⟨r, rfl⟩
    have makes (i : ι) := makes first i r run
    obtain ⟨order, -, last, results⟩ := serial
    let found (v : ρ) := ∀ k, ∃ b, (scripts k).alone clash (some v) = .ok (b, some v) ∧ repeats b v
    have create (i : ι) : ∃ r v, (scripts i).call clash none = (r, some v) ∧ found v ∧ ∃ a, r = .ok a ∧ creates a v := by
      obtain ⟨a, v, run, made, again⟩ := makes i
      exact ⟨.ok a, v, by unfold Script.call; rw [run], again, a, rfl, made⟩
    have repeated (i : ι) (v : ρ) (again : found v) : ∃ r, (scripts i).call clash (some v) = (r, some v) ∧
        ∃ a, r = .ok a ∧ repeats a v := by
      obtain ⟨b, run, same⟩ := again i
      exact ⟨.ok b, by unfold Script.call; rw [run], b, rfl, same⟩
    have once : order = [] ∨ ∃ i r v rest, serially (fun i => (scripts i).call clash) order none =
        ((i, r) :: rest, some v) ∧ found v ∧ (∃ a, r = .ok a ∧ creates a v) ∧
          ∀ e ∈ rest, ∃ a, e.2 = .ok a ∧ repeats a v := serially_once create repeated order
    rcases once with rfl | ⟨j, r, v, rest, done, -, ⟨b, rfl, made⟩, others⟩
    · cases (results i _).mp finished
    · rw [done] at last results
      refine ⟨j, b, v, last.symm, (results _ _).mpr List.mem_cons_self, made, fun k r other answered => ?_⟩
      rcases List.mem_cons.mp ((results k r).mp answered) with same | later
      · cases same
        exact absurd rfl other
      · exact others _ later

end Race

end Relational
