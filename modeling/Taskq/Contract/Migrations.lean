import Mathlib.Data.List.Induction
import Taskq.Migrations.Runner

/-! Concurrent migration runners: what is committed is, in every interleaving, a row of whole migrations from the
front of the list that was pending at the start. -/
namespace Taskq.Migrations

variable {package : Package} {log log' : List Write} {m : Migration} {done later : List Migration}

section Ledger

theorem mem_upsert {rows : List LedgerRow} {row : LedgerRow} {id : String} :
    id ∈ (upsert rows row).map (·.id) ↔ id ∈ rows.map (·.id) ∨ id = row.id := by
  unfold upsert
  split_ifs with known
  · obtain ⟨old, member, same⟩ := List.any_eq_true.mp known
    have kept : (rows.map fun old => if old.id = row.id then row else old).map (·.id) = rows.map (·.id) := by
      rw [List.map_map]
      refine List.map_congr_left fun other _ => ?_
      by_cases same : other.id = row.id <;> simp [same]
    rw [kept]
    refine ⟨.inl, fun h => h.elim (fun old => old) fun own => ?_⟩
    rw [own, ← of_decide_eq_true same]
    exact List.mem_map_of_mem member
  · simp

/-- The ids of the ledger are those it had and those that were recorded. -/
theorem mem_ledger {id : String} : id ∈ (package.ledger log).map (·.id) ↔
    id ∈ package.initial.map (·.id) ∨ ∃ row, .record row ∈ log ∧ row.id = id := by
  induction log using List.reverseRecOn with
  | nil => simp [Package.ledger]
  | append_singleton log write ih =>
    unfold Package.ledger at ih ⊢
    rw [List.foldl_append, List.foldl_cons, List.foldl_nil]
    cases write with
    | effect => simpa using ih
    | record row =>
      rw [mem_upsert, ih]
      simp only [List.mem_append, List.mem_singleton, Write.record.injEq]
      constructor
      · rintro ((old | ⟨other, member, same⟩) | rfl)
        · exact .inl old
        · exact .inr ⟨other, .inl member, same⟩
        · exact .inr ⟨row, .inr rfl, rfl⟩
      · rintro (old | ⟨other, member | rfl, rfl⟩)
        · exact .inl (.inl old)
        · exact .inl (.inr ⟨other, member, rfl⟩)
        · exact .inr rfl

/-- The ledger exists once it has a row. -/
def Package.Standing (package : Package) (log : List Write) : Prop :=
  package.ledger log ≠ [] → (package.columns log).isSome

theorem mem_appliedIds (standing : package.Standing log) {id : String} :
    id ∈ package.appliedIds log ↔ id ∈ (package.ledger log).map (·.id) := by
  unfold Package.appliedIds
  split_ifs with stands
  · rfl
  · have empty : package.ledger log = [] := by
      by_contra rows
      exact stands (standing rows)
    simp [empty]

/-- What is still pending after the writes. -/
def Package.rest (package : Package) (log : List Write) : List Migration :=
  planPending package.migrations (package.appliedIds log)

end Ledger

section Applied

/-- The statements of a migration that took effect. -/
def Migration.effects (m : Migration) (statements : List String) : List Write := statements.map (.effect m.id)

/-- Whole migrations one after the other: all statements of each, followed by its row in the ledger. -/
inductive Package.Applied (package : Package) (log : List Write) : List Migration → List Write → Prop
  | nil : package.Applied log [] log
  | snoc {done : List Migration} {log' : List Write} {m : Migration} {statements : List String} {row : LedgerRow}
      (before : package.Applied log done log') (script : m.statements = some statements) (named : row.id = m.id)
      (stands : (package.columns (log' ++ m.effects statements)).isSome) :
      package.Applied log (done ++ [m]) (log' ++ m.effects statements ++ [.record row])

namespace Package.Applied

theorem trans {more : List Migration} {log'' : List Write} (first : package.Applied log done log')
    (second : package.Applied log' more log'') : package.Applied log (done ++ more) log'' := by
  induction second with
  | nil => simpa using first
  | snoc _ script named stands ih =>
    rw [← List.append_assoc]
    exact .snoc ih script named stands

theorem standing (applied : package.Applied log done log') (standing : package.Standing log) :
    package.Standing log' := by
  cases applied with
  | nil => exact standing
  | snoc _ _ _ stands => exact fun _ => package.keeps _ _ stands

end Package.Applied

/-- The ids of a package are distinct, since its file names are. -/
theorem Package.distinct (package : Package) : (package.migrations.map (·.id)).Nodup := by
  rw [List.nodup_iff_pairwise_ne, List.pairwise_map]
  refine package.ordered.imp fun {a b} less same => ?_
  rw [Migration.filename, Migration.filename, same] at less
  exact String.lt_irrefl _ less

/-- A whole migration takes the first of the pending ones away. -/
theorem rest_snoc {statements : List String} {row : LedgerRow} (standing : package.Standing log)
    (pending : package.rest log = m :: later) (named : row.id = m.id)
    (stands : (package.columns (log ++ m.effects statements)).isSome) :
    package.rest (log ++ m.effects statements ++ [.record row]) = later := by
  have standing' : package.Standing (log ++ m.effects statements ++ [.record row]) :=
    fun _ => package.keeps _ _ stands
  have ids (id : String) : id ∈ package.appliedIds (log ++ m.effects statements ++ [.record row]) ↔
      id ∈ package.appliedIds log ∨ id = m.id := by
    rw [mem_appliedIds standing', mem_appliedIds standing, mem_ledger, mem_ledger]
    simp only [List.mem_append, List.mem_singleton, Write.record.injEq, Migration.effects, List.mem_map, reduceCtorEq,
      and_false, exists_false, or_false]
    constructor
    · rintro (old | ⟨other, member | rfl, rfl⟩)
      · exact .inl (.inl old)
      · exact .inl (.inr ⟨other, member, rfl⟩)
      · exact .inr named
    · rintro ((old | ⟨other, member, rfl⟩) | rfl)
      · exact .inl old
      · exact .inr ⟨other, .inl member, rfl⟩
      · exact .inr ⟨row, .inr rfl, named⟩
  have two : package.rest (log ++ m.effects statements ++ [.record row]) =
      (package.rest log).filter fun other => other.id ≠ m.id := by
    unfold Package.rest planPending
    rw [List.filter_filter]
    refine List.filter_congr fun other _ => ?_
    simp only [ids, not_or]
    by_cases known : other.id ∈ package.appliedIds log <;> simp [known]
  have once : ((m :: later).map (·.id)).Nodup := by
    rw [← pending]
    exact package.distinct.sublist (List.filter_sublist.map _)
  rw [two, pending, List.filter_cons_of_neg (by simp)]
  refine List.filter_eq_self.mpr fun other member => ?_
  rw [List.map_cons, List.nodup_cons] at once
  refine decide_eq_true fun same => once.1 ?_
  rw [← same]
  exact List.mem_map_of_mem member

theorem Package.Applied.rest (applied : package.Applied log done log') (standing : package.Standing log)
    (pending : package.rest log = done ++ later) : package.rest log' = later := by
  induction applied generalizing later with
  | nil => exact pending
  | @snoc done log' m statements row before script named stands ih =>
    rw [List.append_assoc] at pending
    exact rest_snoc (before.standing standing) (ih pending) named stands

end Applied

section Runner

variable {r : Runner} {c c' : List Write} {holds : Bool}

/-- The transaction of a runner holds whole migrations from the front of what is pending. -/
def Package.Whole (package : Package) (c work : List Write) (pending : List Migration) : Prop :=
  ∃ mine, package.Applied c mine (c ++ work) ∧ package.rest c = mine ++ pending

/-- It holds whole migrations and the first statements of the next one. -/
structure Package.Partway (package : Package) (c whole work : List Write) (m : Migration) (left : List String)
    (pending : List Migration) : Prop where
  front : package.Whole c whole (m :: pending)
  ran : ∃ ran, m.statements = some (ran ++ left) ∧ work = whole ++ m.effects ran

/-- The last write of the transaction is a statement whose migration is not recorded. -/
def Runner.torn (r : Runner) : Bool :=
  match r.work.getLast? with
  | some (.effect ..) => true
  | _ => false

/-- The runner has the lock, which it took once. -/
structure Runner.Locked (r : Runner) (holds : Bool) : Prop where
  held : holds = true
  ready : r.stale = false
  taken : r.taken = 1
  unreleased : r.released = 0

/-- A runner with its own transactions has given the lock back, and has no transaction. -/
structure Runner.Free (r : Runner) (holds : Bool) : Prop where
  unheld : holds = false
  idle : r.txn = .none
  taken : r.taken = 1
  released : r.released = 1

/-- A normal return has left nothing pending. -/
def Outcome.Full (outcome : Outcome) (pending : List Migration) : Prop :=
  match outcome with
  | .returned _ => pending = []
  | .raised => True

/-- What holds of a runner at each of its places, over what is committed. -/
def Package.Fine (package : Package) (c : List Write) (holds : Bool) (r : Runner) : Prop :=
  match r.phase with
  | .fresh => holds = false ∧ r.stale = false ∧ r.work = [] ∧ r.taken = 0 ∧ r.released = 0
  | .validate | .probe => r.Locked holds ∧ r.work = []
  | .closeProbe pending => r.owns = true ∧ r.Locked holds ∧ r.work = [] ∧ pending = package.rest c
  | .loop pending => r.Locked holds ∧ package.Whole c r.work pending ∧
      (r.owns = true → r.work = [] ∧ package.rest c = pending)
  | .execute m left later => r.Locked holds ∧ ∃ whole, package.Partway c whole r.work m left later ∧
      (r.owns = true → whole = [] ∧ package.rest c = m :: later)
  | .record m later => r.Locked holds ∧ ∃ whole, package.Partway c whole r.work m [] later ∧
      (r.owns = true → whole = [] ∧ package.rest c = m :: later)
  | .commit m later => r.owns = true ∧ r.Locked holds ∧ package.Applied c [m] (c ++ r.work) ∧ package.rest c = m :: later
  | .undo => r.owns = true ∧ holds = true ∧ r.taken = 1 ∧ r.released = 0
  | .cleanup outcome => r.owns = true ∧ r.Locked holds ∧ r.work = [] ∧ outcome.Full (package.rest c)
  | .unlock outcome => r.owns = true ∧ r.Locked holds ∧ r.work = [] ∧ outcome.Full (package.rest c)
  | .closeUnlock outcome released => r.owns = true ∧ holds = false ∧ r.taken = 1 ∧ r.released = 1 ∧ r.work = [] ∧
      released = true ∧ outcome.Full (package.rest c)
  | .ended outcome =>
    if r.owns then r.Free holds ∧ outcome.Full (package.rest c)
    else (holds = false → r.work = [] ∧ outcome = .raised) ∧ (outcome ≠ .raised → package.Whole c r.work []) ∧
      (r.torn = false → ∃ later, package.Whole c r.work later)
  | .closed outcome committed => holds = false ∧ (committed = true → outcome.Full (package.rest c))
  | .gone => holds = false

/-- The steps after which the runner cannot keep its promises: the lock statement fails and leaves its transaction open,
the commit of the probe or the unlock fails and leaves the lock, or a caller commits although the call stopped within
a migration. -/
def Runner.exposed (r : Runner) : Event → Bool
  | .proceed => false
  | .fail _ => match r.phase with
    | .fresh => r.owns
    | .closeProbe _ | .unlock _ => true
    | _ => false
  | .lose commits | .finish commits => commits && r.phase = .ended .raised && r.txn = .active && r.torn

/-- What a step does to the rest: it commits nothing, or whole migrations under the lock, and it only takes a lock
that is free. -/
structure Package.Moves (package : Package) (c : List Write) (free holds : Bool) (move : Move) : Prop where
  fine : package.Fine move.committed move.holds move.runner
  commits : move.committed = c ∨ holds = true ∧ ∃ mine later, package.Applied c mine move.committed ∧
    package.rest c = mine ++ later
  takes : move.holds = true → holds = true ∨ free = true

theorem Package.Whole.nil (c : List Write) : package.Whole c [] (package.rest c) :=
  ⟨[], (List.append_nil c).symm ▸ .nil, rfl⟩

/-- The next migration is complete with its row. -/
theorem Package.Partway.recorded {whole work : List Write} {row : LedgerRow} (partway : package.Partway c whole work m [] later)
    (named : row.id = m.id) (stands : (package.columns (c ++ work)).isSome) :
    package.Whole c (work ++ [.record row]) later := by
  obtain ⟨⟨mine, applied, pending⟩, ran, script, rfl⟩ := partway
  rw [List.append_nil] at script
  rw [← List.append_assoc] at stands
  refine ⟨mine ++ [m], ?_, by rw [pending, List.append_assoc]; rfl⟩
  rw [← List.append_assoc, ← List.append_assoc]
  exact .snoc applied script named stands

/-- Writes that do not end in a statement are those of whole migrations. -/
theorem Package.Partway.untorn {whole : List Write} {statements : List String}
    (partway : package.Partway c whole r.work m statements later) (untorn : r.torn = false) :
    ∃ later, package.Whole c r.work later := by
  obtain ⟨front, ran, -, work⟩ := partway
  refine ⟨m :: later, ?_⟩
  cases ran using List.reverseRecOn with
  | nil =>
    rw [work]
    simpa [Migration.effects] using front
  | append_singleton ran last =>
    rw [Runner.torn, work, Migration.effects, List.map_append, ← List.append_assoc, List.map_singleton,
      List.getLast?_append] at untorn
    cases untorn

theorem proceed_moves {free : Bool} {move : Move} (standing : package.Standing c) (fine : package.Fine c holds r)
    (step : r.proceed package c free holds = some move) : package.Moves c free holds move := by
  obtain ⟨owns, expected, phase, txn, stale, work, applied, taken, released⟩ := r
  cases phase with
  | fresh =>
    obtain ⟨-, ready, clean, untaken, unreleased⟩ := fine
    simp only [Runner.proceed] at step
    split_ifs at step with free
    cases step
    exact ⟨⟨⟨rfl, ready, congrArg (· + 1) untaken, unreleased⟩, clean⟩, .inl rfl, fun _ => .inr free⟩
  | validate =>
    cases step
    obtain ⟨locked, clean⟩ := fine
    exact ⟨⟨⟨locked.held, locked.ready, locked.taken, locked.unreleased⟩, clean⟩, .inl rfl, .inl⟩
  | probe =>
    obtain ⟨⟨held, ready, taken, unreleased⟩, clean⟩ := fine
    cases clean
    simp only [Runner.proceed, List.append_nil] at step
    split_ifs at step with agreed own
    · cases step
      exact ⟨⟨own, ⟨held, ready, taken, unreleased⟩, rfl, rfl⟩, .inl rfl, .inl⟩
    · cases step
      refine ⟨⟨⟨held, ready, taken, unreleased⟩, .nil c, fun own' => absurd own' own⟩, .inl rfl, .inl⟩
    · cases step
      cases owns with
      | true => exact ⟨⟨rfl, ⟨held, ready, taken, unreleased⟩, rfl, trivial⟩, .inl rfl, .inl⟩
      | false =>
        refine ⟨⟨fun _ => ⟨rfl, rfl⟩, fun other => absurd rfl other, fun _ => ⟨_, .nil c⟩⟩, .inl rfl, .inl⟩
  | closeProbe pending =>
    obtain ⟨own, ⟨held, ready, taken, unreleased⟩, clean, rfl⟩ := fine
    cases clean
    cases step
    rw [List.append_nil]
    exact ⟨⟨⟨held, ready, taken, unreleased⟩, .nil c, fun _ => ⟨rfl, rfl⟩⟩, .inl rfl, .inl⟩
  | loop pending =>
    obtain ⟨⟨held, ready, taken, unreleased⟩, whole, alone⟩ := fine
    cases pending with
    | nil =>
      cases step
      cases owns with
      | true =>
        obtain ⟨clean, full⟩ := alone rfl
        exact ⟨⟨rfl, ⟨held, ready, taken, unreleased⟩, clean, full⟩, .inl rfl, .inl⟩
      | false => exact ⟨⟨fun unheld => (nomatch unheld.symm.trans held), fun _ => whole, fun _ => ⟨_, whole⟩⟩, .inl rfl, .inl⟩
    | cons m later =>
      simp only [Runner.proceed] at step
      split at step
      · cases step
        cases owns with
        | true => exact ⟨⟨rfl, held, taken, unreleased⟩, .inl rfl, .inl⟩
        | false =>
          exact ⟨⟨fun unheld => (nomatch unheld.symm.trans held), fun other => absurd rfl other, fun _ => ⟨_, whole⟩⟩,
            .inl rfl, .inl⟩
      · rename_i statements script
        cases step
        refine ⟨⟨⟨held, ready, taken, unreleased⟩, work, ⟨whole, [], script, ?_⟩, alone⟩, .inl rfl, .inl⟩
        exact (List.append_nil _).symm
  | execute m left later =>
    obtain ⟨⟨held, ready, taken, unreleased⟩, whole, partway, alone⟩ := fine
    cases left with
    | nil =>
      cases step
      exact ⟨⟨⟨held, ready, taken, unreleased⟩, whole, partway, alone⟩, .inl rfl, .inl⟩
    | cons statement left =>
      cases step
      obtain ⟨front, ran, script, rfl⟩ := partway
      refine ⟨⟨⟨held, ready, taken, unreleased⟩, whole, ⟨front, ran ++ [statement], ?_, ?_⟩, alone⟩, .inl rfl, .inl⟩
      · rw [script, List.append_assoc]
        rfl
      · simp [Migration.effects]
  | record m later =>
    obtain ⟨⟨held, ready, taken, unreleased⟩, whole, partway, alone⟩ := fine
    simp only [Runner.proceed] at step
    split_ifs at step with column own
    · cases step
      have stands : (package.columns (c ++ work)).isSome := by
        cases there : package.columns (c ++ work) with
        | none => simp [there] at column
        | some columns => rfl
      obtain ⟨rfl, pending⟩ := alone own
      obtain ⟨-, ran, script, rfl⟩ := partway
      rw [List.append_nil] at script
      refine ⟨⟨own, ⟨held, ready, taken, unreleased⟩, ?_, pending⟩, .inl rfl, .inl⟩
      rw [List.nil_append] at stands ⊢
      rw [← List.append_assoc]
      exact .snoc .nil script rfl stands
    · cases step
      have stands : (package.columns (c ++ work)).isSome := by
        cases there : package.columns (c ++ work) with
        | none => simp [there] at column
        | some columns => rfl
      exact ⟨⟨⟨held, ready, taken, unreleased⟩, partway.recorded rfl stands, fun own' => absurd own' own⟩, .inl rfl, .inl⟩
    · cases step
      cases owns with
      | true => exact ⟨⟨rfl, held, taken, unreleased⟩, .inl rfl, .inl⟩
      | false =>
        exact ⟨⟨fun unheld => (nomatch unheld.symm.trans held), fun other => absurd rfl other, partway.untorn⟩,
          .inl rfl, .inl⟩
  | commit m later =>
    obtain ⟨own, ⟨held, ready, taken, unreleased⟩, applied', pending⟩ := fine
    cases step
    have rest : package.rest (c ++ work) = later := applied'.rest standing pending
    refine ⟨⟨⟨held, ready, taken, unreleased⟩, ?_, fun _ => ⟨rfl, rest⟩⟩, .inr ⟨held, [m], later, applied', pending⟩, .inl⟩
    rw [← rest]
    exact .nil _
  | undo =>
    obtain ⟨own, held, taken, unreleased⟩ := fine
    cases step
    exact ⟨⟨own, ⟨held, rfl, taken, unreleased⟩, rfl, trivial⟩, .inl rfl, .inl⟩
  | cleanup outcome =>
    obtain ⟨own, ⟨held, ready, taken, unreleased⟩, clean, full⟩ := fine
    simp only [Runner.proceed] at step
    split_ifs at step <;> cases step
    · exact ⟨⟨own, ⟨held, rfl, taken, unreleased⟩, rfl, full⟩, .inl rfl, .inl⟩
    · exact ⟨⟨own, ⟨held, ready, taken, unreleased⟩, clean, full⟩, .inl rfl, .inl⟩
  | unlock outcome =>
    obtain ⟨own, ⟨held, ready, taken, unreleased⟩, clean, full⟩ := fine
    cases held
    cases ready
    cases step
    exact ⟨⟨own, rfl, taken, congrArg (· + 1) unreleased, clean, rfl, full⟩, .inl rfl, fun h => (by cases h)⟩
  | closeUnlock outcome given =>
    obtain ⟨own, unheld, taken, released', clean, rfl, full⟩ := fine
    cases clean
    cases step
    cases own
    rw [List.append_nil]
    exact ⟨⟨⟨unheld, rfl, taken, released'⟩, full⟩, .inl rfl, .inl⟩
  | ended | closed | gone => cases step

theorem fail_moves {free aborts : Bool} {move : Move} (fine : package.Fine c holds r)
    (calm : r.exposed (.fail aborts) = false) (step : r.fail c holds aborts = some move) :
    package.Moves c free holds move := by
  obtain ⟨owns, expected, phase, txn, stale, work, applied, taken, released⟩ := r
  cases phase with
  | fresh =>
    obtain ⟨unheld, ready, clean, -, -⟩ := fine
    cases clean
    cases owns with
    | true => cases calm
    | false =>
      cases step
      exact ⟨⟨fun _ => ⟨rfl, rfl⟩, fun other => absurd rfl other, fun _ => ⟨_, .nil c⟩⟩, .inl rfl, .inl⟩
  | validate | probe =>
    obtain ⟨⟨held, ready, taken, unreleased⟩, clean⟩ := fine
    cases clean
    cases step
    cases owns with
    | true => exact ⟨⟨rfl, ⟨held, ready, taken, unreleased⟩, rfl, trivial⟩, .inl rfl, .inl⟩
    | false => exact ⟨⟨fun _ => ⟨rfl, rfl⟩, fun other => absurd rfl other, fun _ => ⟨_, .nil c⟩⟩, .inl rfl, .inl⟩
  | closeProbe | unlock => cases calm
  | loop pending =>
    obtain ⟨⟨held, ready, taken, unreleased⟩, whole, -⟩ := fine
    cases pending with
    | nil => cases step
    | cons m later =>
      cases step
      cases owns with
      | true => exact ⟨⟨rfl, held, taken, unreleased⟩, .inl rfl, .inl⟩
      | false =>
        exact ⟨⟨fun unheld => (nomatch unheld.symm.trans held), fun other => absurd rfl other, fun _ => ⟨_, whole⟩⟩,
          .inl rfl, .inl⟩
  | execute | record =>
    obtain ⟨⟨held, ready, taken, unreleased⟩, whole, partway, -⟩ := fine
    cases step
    cases owns with
    | true => exact ⟨⟨rfl, held, taken, unreleased⟩, .inl rfl, .inl⟩
    | false =>
      exact ⟨⟨fun unheld => (nomatch unheld.symm.trans held), fun other => absurd rfl other, partway.untorn⟩,
        .inl rfl, .inl⟩
  | commit =>
    obtain ⟨own, ⟨held, ready, taken, unreleased⟩, -⟩ := fine
    cases step
    cases own
    exact ⟨⟨rfl, held, taken, unreleased⟩, .inl rfl, .inl⟩
  | closeUnlock outcome given =>
    obtain ⟨own, unheld, taken, released', clean, rfl, full⟩ := fine
    cases step
    cases own
    exact ⟨⟨⟨unheld, rfl, taken, released'⟩, trivial⟩, .inl rfl, .inl⟩
  | undo | cleanup | ended | closed | gone => cases step

/-- What a runner commits in one go is whole migrations. -/
theorem commits_whole (standing : package.Standing c) (fine : package.Fine c holds r) (committing : r.committing = true)
    (calm : ¬(r.phase = .ended .raised ∧ r.txn = .active ∧ r.torn = true)) :
    (c ++ r.work = c ∨ holds = true ∧ ∃ mine later, package.Applied c mine (c ++ r.work) ∧
      package.rest c = mine ++ later) ∧
      ∀ outcome, r.phase = .ended outcome → outcome.Full (package.rest (c ++ r.work)) := by
  obtain ⟨owns, expected, phase, txn, stale, work, applied, taken, released⟩ := r
  cases phase with
  | commit m later =>
    obtain ⟨own, ⟨held, -, -, -⟩, applied', pending⟩ := fine
    exact ⟨.inr ⟨held, [m], later, applied', pending⟩, fun _ h => nomatch h⟩
  | ended outcome =>
    simp only [Runner.committing, Bool.and_eq_true, Bool.not_eq_true', decide_eq_true_eq] at committing
    obtain ⟨rfl, active⟩ := committing
    obtain ⟨unheld, full, front⟩ := fine
    have whole : ∃ later, package.Whole c work later := by
      cases outcome with
      | returned => exact ⟨[], full nofun⟩
      | raised => exact front (by simpa [active] using calm)
    refine ⟨?_, fun outcome' same => ?_⟩
    · cases held : holds with
      | false =>
        left
        rw [(unheld held).1, List.append_nil]
      | true =>
        obtain ⟨later, mine, applied', pending⟩ := whole
        exact .inr ⟨rfl, mine, later, applied', pending⟩
    · cases same
      cases outcome with
      | returned =>
        obtain ⟨mine, applied', pending⟩ := full nofun
        exact applied'.rest standing pending
      | raised => trivial
  | _ => cases committing

theorem end_moves {free : Bool} {event : Event} {move : Move} (standing : package.Standing c)
    (fine : package.Fine c holds r) (calm : r.exposed event = false)
    (step : r.step package c free holds event = some move)
    (ending : (∃ commits, event = .lose commits) ∨ ∃ commits, event = .finish commits) :
    package.Moves c free holds move := by
  obtain ⟨commits, rfl⟩ | ⟨commits, rfl⟩ := ending
  · simp only [Runner.step] at step
    split_ifs at step with there effective <;> cases step
    · have committing : r.committing = true := by
        simp only [not_or, effective, true_and, Bool.not_eq_false] at there
        exact there.2
      have whole := commits_whole standing fine committing
        (by simpa [Runner.exposed, effective] using calm)
      exact ⟨rfl, whole.1, fun h => by cases h⟩
    · exact ⟨rfl, .inl rfl, fun h => by cases h⟩
  · simp only [Runner.step] at step
    split at step
    · rename_i outcome phase
      split_ifs at step with own effective <;> cases step
      · obtain ⟨asked, active⟩ := Bool.and_eq_true_iff.mp effective
        have committing : r.committing = true := by simp [Runner.committing, phase, own, active]
        have whole := commits_whole standing fine committing (by simpa [Runner.exposed, asked] using calm)
        exact ⟨⟨rfl, fun _ => whole.2 outcome phase⟩, whole.1, fun h => by cases h⟩
      · exact ⟨⟨rfl, fun given => absurd given effective⟩, .inl rfl, fun h => by cases h⟩
    · cases step

theorem step_moves {free : Bool} {event : Event} {move : Move} (standing : package.Standing c)
    (fine : package.Fine c holds r) (calm : r.exposed event = false)
    (step : r.step package c free holds event = some move) : package.Moves c free holds move := by
  cases event with
  | proceed => exact proceed_moves standing fine step
  | fail aborts => exact fail_moves fine calm step
  | lose commits => exact end_moves standing fine calm step (.inl ⟨commits, rfl⟩)
  | finish commits => exact end_moves standing fine calm step (.inr ⟨commits, rfl⟩)

/-- A runner without the lock does not notice what others commit. -/
theorem Package.Fine.other (fine : package.Fine c false r)
    (grows : package.rest c = [] → package.rest c' = []) : package.Fine c' false r := by
  obtain ⟨owns, expected, phase, txn, stale, work, applied, taken, released⟩ := r
  have full {outcome : Outcome} (before : outcome.Full (package.rest c)) : outcome.Full (package.rest c') := by
    cases outcome with
    | returned => exact grows before
    | raised => trivial
  cases phase with
  | fresh | gone => exact fine
  | validate | probe => exact absurd fine.1.held Bool.false_ne_true
  | closeProbe | cleanup | unlock | commit => exact absurd fine.2.1.held Bool.false_ne_true
  | loop | execute | record => exact absurd fine.1.held Bool.false_ne_true
  | undo => exact absurd fine.2.1 Bool.false_ne_true
  | closeUnlock =>
    obtain ⟨own, unheld, taken, released', clean, given, before⟩ := fine
    exact ⟨own, unheld, taken, released', clean, given, full before⟩
  | closed => exact ⟨rfl, fun given => full (fine.2 given)⟩
  | ended outcome =>
    cases owns with
    | true => exact ⟨fine.1, full fine.2⟩
    | false =>
      obtain ⟨clean, -, -⟩ := fine
      obtain ⟨rfl, rfl⟩ := clean rfl
      exact ⟨fun _ => ⟨rfl, rfl⟩, fun other => absurd rfl other, fun _ => ⟨_, .nil c'⟩⟩

end Runner

section World

variable {ι : Type} [DecidableEq ι] {w w' : World ι}

/-- What holds between any two steps: whole migrations from the front of the list are committed, and every runner is
where the lock lets it be. -/
structure Package.Sound (package : Package) (w : World ι) : Prop where
  standing : package.Standing w.committed
  front : ∃ done later, package.Applied [] done w.committed ∧ package.rest [] = done ++ later
  runners : ∀ i, package.Fine w.committed (w.holder = some i) (w.runner i)

theorem Package.standing_nil (package : Package) : package.Standing [] := package.stands

theorem Package.sound_start (package : Package) (owns : ι → Bool) (expected : ι → Option (List (String × String))) :
    package.Sound ⟨[], none, fun i => .start (owns i) (expected i)⟩ where
  standing := package.standing_nil
  front := ⟨[], package.rest [], .nil, rfl⟩
  runners := fun _ => ⟨rfl, rfl, rfl, rfl, rfl⟩

/-- A whole migration leaves no more pending than there was. -/
theorem Package.Applied.still_full (applied : package.Applied log done log') (standing : package.Standing log)
    (pending : package.rest log = done ++ later) (full : package.rest log = []) : package.rest log' = [] := by
  obtain ⟨-, none'⟩ := List.append_eq_nil_iff.mp (pending.symm.trans full)
  rw [applied.rest standing pending, none']

theorem Package.Sound.step {i : ι} {event : Event} (sound : package.Sound w)
    (calm : (w.runner i).exposed event = false) (step : w.step package i event = some w') : package.Sound w' := by
  obtain ⟨move, local', rfl⟩ := Option.map_eq_some_iff.mp step
  have moves := step_moves sound.standing (sound.runners i) calm local'
  obtain ⟨done, later, before, front⟩ := sound.front
  refine ⟨?_, ?_, fun j => ?_⟩
  · obtain same | ⟨-, mine, rest, applied, -⟩ := moves.commits
    · exact same.symm ▸ sound.standing
    · exact applied.standing sound.standing
  · obtain same | ⟨-, mine, rest, applied, pending⟩ := moves.commits
    · exact ⟨done, later, same.symm ▸ before, front⟩
    · refine ⟨done ++ mine, rest, before.trans applied, ?_⟩
      rw [List.append_assoc, ← pending, before.rest package.standing_nil front]
      exact front
  · by_cases own : j = i
    · subst own
      dsimp only
      rw [Function.update_self]
      have holds : decide ((if move.holds = true then some j else if w.holder = some j then none else w.holder) =
          some j) = move.holds := by
        by_cases held : move.holds = true
        · simp [held]
        · by_cases before : w.holder = some j <;> simp [held, before]
      rw [holds]
      exact moves.fine
    · dsimp only
      rw [Function.update_of_ne own]
      have fine := sound.runners j
      by_cases held : w.holder = some j
      · -- the holder waits while nobody else can commit or take the lock
        have other : w.holder ≠ some i := fun same => own (Option.some.inj (held.symm.trans same))
        have kept : move.committed = w.committed := moves.commits.resolve_right fun commits =>
          other (of_decide_eq_true commits.1)
        have untaken : move.holds ≠ true := fun takes => (moves.takes takes).elim
          (fun same => other (of_decide_eq_true same)) fun free => nomatch held.symm.trans (of_decide_eq_true free)
        simp only [untaken, other, if_false, kept]
        exact fine
      · have unheld : (if move.holds = true then some i else if w.holder = some i then none else w.holder) ≠
            some j := by
          split_ifs
          · exact fun same => own (Option.some.inj same).symm
          · exact nofun
          · exact held
        rw [decide_eq_false unheld]
        rw [decide_eq_false held] at fine
        refine fine.other fun full => ?_
        obtain same | ⟨-, mine, rest, applied, pending⟩ := moves.commits
        · exact same.symm ▸ full
        · exact applied.still_full sound.standing pending full

theorem World.Run.sound (run : World.Run package (fun r event => r.exposed event = false) w) : package.Sound w := by
  induction run with
  | start owns expected => exact package.sound_start owns expected
  | step _ calm step ih => exact ih.step calm step

/-- Migrations are applied once: what is committed is the whole application of migrations from the front of what was
pending at the start, in file order, each with its row in the ledger; a normal return, in a caller's transaction once
that is committed, leaves every migration of the package recorded; and a call with its own transactions that is over
has given back the lock, which it took and released once, and has no transaction open. -/
structure Package.AppliesOnce (package : Package) (w : World ι) : Prop where
  whole : ∃ done, done <+: planPending package.migrations (package.appliedIds []) ∧ package.Applied [] done w.committed
  complete : ∀ i applied, ((w.runner i).owns = true ∧ (w.runner i).phase = .ended (.returned applied) ∨
      (w.runner i).phase = .closed (.returned applied) true) →
    ∀ m ∈ package.migrations, m.id ∈ package.appliedIds w.committed
  released : ∀ i outcome, (w.runner i).owns = true → (w.runner i).phase = .ended outcome →
    w.holder ≠ some i ∧ (w.runner i).taken = 1 ∧ (w.runner i).released = 1 ∧ (w.runner i).txn = .none

theorem migrations_applied_once (run : World.Run package (fun r event => r.exposed event = false) w) :
    package.AppliesOnce w := by
  obtain ⟨-, ⟨done, later, applied, front⟩, runners⟩ := run.sound
  refine ⟨⟨done, ⟨later, front.symm⟩, applied⟩, fun i applied ends m member => ?_, fun i outcome own ends => ?_⟩
  · have none' : package.rest w.committed = [] := by
      have fine := runners i
      unfold Package.Fine at fine
      obtain ⟨own, ends⟩ | ends := ends
      · rw [ends] at fine
        simp only [own, if_true] at fine
        exact fine.2
      · rw [ends] at fine
        exact fine.2 rfl
    by_contra unrecorded
    have pending : m ∈ package.rest w.committed := List.mem_filter.mpr ⟨member, decide_eq_true unrecorded⟩
    rw [none'] at pending
    cases pending
  · have fine := runners i
    unfold Package.Fine at fine
    rw [ends] at fine
    simp only [own, if_true] at fine
    exact ⟨of_decide_eq_false fine.1.unheld, fine.1.taken, fine.1.released, fine.1.idle⟩

/-- Two migrations, of which the first creates the ledger. -/
def twoMigrations : Package where
  migrations := [⟨"0001_initial", "a", some ["CREATE TABLE", "GRANT"]⟩, ⟨"0002_more", "b", some ["ALTER TABLE"]⟩]
  version := "1"
  initial := []
  columns := fun log => if log = [] then none else some ["id", "package_version", "checksum"]
  ordered := by decide
  stands := fun h => absurd rfl h
  keeps := fun log more there => by
    cases log with
    | nil => cases there
    | cons => rfl

/-- Play events of given runners one after the other. -/
def World.plays (package : Package) (permitted : Runner → Event → Bool) : List (ι × Event) → World ι → Option (World ι)
  | [], w => some w
  | (i, event) :: events, w =>
    if permitted (w.runner i) event then (w.step package i event).bind (World.plays package permitted events) else none

theorem World.plays_run {permitted : Runner → Event → Bool} {events : List (ι × Event)}
    (run : World.Run package (fun r event => permitted r event = true) w)
    (played : World.plays package permitted events w = some w') :
    World.Run package (fun r event => permitted r event = true) w' := by
  induction events generalizing w with
  | nil =>
    cases played
    exact run
  | cons head events ih =>
    simp only [World.plays] at played
    split_ifs at played with allowed
    obtain ⟨mid, step, rest⟩ := Option.bind_eq_some_iff.mp played
    exact ih (run.step allowed step) rest

/-- One runner fails its second migration and rolls it back, and the next applies what is left. -/
def twoRunners : List (ℕ × Event) :=
  List.replicate 11 (0, .proceed) ++ [(0, .fail true)] ++ List.replicate 4 (0, .proceed) ++
    List.replicate 13 (1, .proceed)

theorem migrations_applied_once_twice : ∃ w : World ℕ, twoMigrations.AppliesOnce w ∧
    (w.runner 0).phase = .ended .raised ∧ (w.runner 1).phase = .ended (.returned ["0002_more"]) := by
  have start : World.Run twoMigrations (fun r event => (!r.exposed event) = true)
      (⟨[], none, fun _ => .start true none⟩ : World ℕ) := .start (fun _ => true) fun _ => none
  have played : (World.plays twoMigrations (fun r event => !r.exposed event) twoRunners
      ⟨[], none, fun _ => .start true none⟩).any (fun w => decide ((w.runner 0).phase = .ended .raised ∧
        (w.runner 1).phase = .ended (.returned ["0002_more"]))) = true := by decide +kernel
  obtain ⟨w, played, phases⟩ := (Option.any_eq_true _ _).mp played
  have run := World.plays_run start played
  simp only [Bool.not_eq_true'] at run
  exact ⟨w, migrations_applied_once run, of_decide_eq_true phases⟩

/-- A lock statement that fails, as one that waits past `lock_timeout` does, leaves its transaction open. -/
theorem migration_lock_failure : ¬∀ w : World ℕ, World.Run twoMigrations (fun _ _ => True) w →
    twoMigrations.AppliesOnce w := by
  intro applies
  have start : World.Run twoMigrations (fun _ _ => True)
      (⟨[], none, fun _ => .start true none⟩ : World ℕ) := .start (fun _ => true) fun _ => none
  obtain ⟨w, failed, ends, opened⟩ : ∃ w, World.step twoMigrations
      (⟨[], none, fun _ => .start true none⟩ : World ℕ) 0 (.fail true) = some w ∧
      (w.runner 0).owns = true ∧ (w.runner 0).phase = .ended .raised ∧ (w.runner 0).txn = .failed :=
    ⟨_, rfl, rfl, rfl, rfl⟩
  have released := (applies w (start.step trivial failed)).released 0 .raised ends opened.1
  exact nomatch opened.2.symm.trans released.2.2.2

/-- A commit of the probe that fails leaves the lock: the connection takes no unlock before a rollback. -/
example : (World.plays twoMigrations (fun _ _ => true)
    [(0, .proceed), (0, .proceed), (0, .proceed), (0, .fail false), (0, .proceed), (0, .proceed)]
    (⟨[], none, fun _ => .start true none⟩ : World ℕ)).any
      (fun w => (w.runner 0).phase = .ended .raised ∧ w.holder = some 0) = true := by decide

end World

end Taskq.Migrations
