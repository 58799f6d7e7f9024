import Mathlib.Data.List.Basic
import Mathlib.Logic.Function.Basic

/-! The migration runner: any number of connections apply one packaged list, each under a session lock with a
transaction for each migration, or under a transaction lock inside the transaction of its caller. Between two
statements of one runner any step of another may come. -/
namespace Taskq.Migrations

/-- A packaged migration; `statements` raises when the file controls transactions. -/
structure Migration where
  id : String
  checksum : String
  statements : Option (List String)
  deriving DecidableEq, Repr

def Migration.filename (m : Migration) : String := m.id ++ ".sql"

/-- A row of `taskq.schema_migrations`, without the time of its insert. -/
structure LedgerRow where
  id : String
  packageVersion : Option String
  checksum : Option String
  deriving DecidableEq, Repr

/-- What a transaction writes: a statement of a migration takes effect, or a row goes to the ledger. -/
inductive Write where
  | effect (migration statement : String)
  | record (row : LedgerRow)
  deriving DecidableEq, Repr

/-- The packaged list and the database it meets. No statement of the package drops the ledger. -/
structure Package where
  migrations : List Migration
  version : String
  /-- The ledger before any of the runners starts. -/
  initial : List LedgerRow
  /-- The columns of the ledger after these writes, when it exists. -/
  columns : List Write → Option (List String)
  ordered : migrations.Pairwise fun a b => a.filename < b.filename
  stands : initial ≠ [] → (columns []).isSome
  keeps : ∀ log more, (columns log).isSome → (columns (log ++ more)).isSome

variable (package : Package)

/-- `INSERT … ON CONFLICT (id) DO UPDATE`. -/
def upsert (rows : List LedgerRow) (row : LedgerRow) : List LedgerRow :=
  if rows.any (·.id = row.id) then rows.map fun old => if old.id = row.id then row else old else rows ++ [row]

/-- The rows of the ledger after the writes. -/
def Package.ledger (log : List Write) : List LedgerRow :=
  log.foldl (fun rows write => match write with
    | .effect .. => rows
    | .record row => upsert rows row) package.initial

/-- `_applied_ids`. -/
def Package.appliedIds (log : List Write) : List String :=
  if (package.columns log).isSome then (package.ledger log).map (·.id) else []

/-- `plan_pending`. -/
def planPending (migrations : List Migration) (appliedIds : List String) : List Migration :=
  migrations.filter fun m => m.id ∉ appliedIds

/-- The row that `_record_applied` inserts into a ledger with these columns. -/
def Package.row (columns : List String) (m : Migration) : LedgerRow where
  id := m.id
  packageVersion := if "package_version" ∈ columns then some package.version else none
  checksum := if "checksum" ∈ columns then some m.checksum else none

inductive Outcome where
  | returned (applied : List String)
  | raised
  deriving DecidableEq, Repr

/-- The place of a runner in `_migrate_impl`: the next thing it does. -/
inductive Phase where
  /-- Take the lock. -/
  | fresh
  | validate
  /-- Read the ledger and plan. -/
  | probe
  | closeProbe (pending : List Migration)
  /-- The head of the loop. -/
  | loop (pending : List Migration)
  | execute (m : Migration) (left : List String) (later : List Migration)
  | record (m : Migration) (later : List Migration)
  | commit (m : Migration) (later : List Migration)
  /-- The rollback of the `except` clause. -/
  | undo
  /-- The `finally` clause: roll back what is open, unlock, commit. -/
  | cleanup (outcome : Outcome)
  | unlock (outcome : Outcome)
  | closeUnlock (outcome : Outcome) (released : Bool)
  /-- The call is over; a caller still has its transaction. -/
  | ended (outcome : Outcome)
  /-- The caller has ended its transaction. -/
  | closed (outcome : Outcome) (committed : Bool)
  /-- The connection is lost. -/
  | gone
  deriving DecidableEq, Repr

/-- The transaction of a connection on the server. -/
inductive Txn where
  | none | active | failed
  deriving DecidableEq, Repr

structure Runner where
  /-- `owns_txn`: the connection was in no transaction when the call began. -/
  owns : Bool
  /-- `expected_pending`: ids and checksums. -/
  expected : Option (List (String × String))
  phase : Phase
  txn : Txn
  /-- A commit has failed, and the connection takes no statement before a rollback. -/
  stale : Bool
  /-- The writes of the open transaction. -/
  work : List Write
  applied : List String
  /-- How often the lock was taken, and released by a statement; nothing reads these. -/
  taken : ℕ
  released : ℕ
  deriving DecidableEq, Repr

def Runner.start (owns : Bool) (expected : Option (List (String × String))) : Runner where
  owns := owns
  expected := expected
  phase := .fresh
  txn := if owns then .none else .active
  stale := false
  work := []
  applied := []
  taken := 0
  released := 0

/-- `conn.in_transaction()`. -/
def Runner.inTransaction (r : Runner) : Bool := r.txn ≠ .none && !r.stale

/-- What happens next on a connection. -/
inductive Event where
  /-- The next statement or check succeeds. -/
  | proceed
  /-- It fails and the connection stays usable; an error of the server aborts the transaction. -/
  | fail (aborts : Bool)
  /-- The connection is lost; a commit under way may have taken effect. -/
  | lose (committed : Bool)
  /-- The caller ends its transaction. -/
  | finish (commits : Bool)
  deriving DecidableEq, Repr

/-- A step of one runner: the runner after it, what is committed, and whether the runner holds the lock. -/
structure Move where
  runner : Runner
  committed : List Write
  holds : Bool

/-- An exception in the loop, which a runner with its own transactions rolls back. -/
def Runner.raiseInner (r : Runner) : Runner := { r with phase := if r.owns then .undo else .ended .raised }

/-- An exception before the loop. -/
def Runner.raiseOuter (r : Runner) : Runner := { r with phase := if r.owns then .cleanup .raised else .ended .raised }

/-- The loop is done. -/
def Runner.return (r : Runner) : Runner :=
  { r with phase := if r.owns then .cleanup (.returned r.applied) else .ended (.returned r.applied) }

def Runner.rollback (r : Runner) : Runner := { r with txn := .none, stale := false, work := [] }

/-- The step of a runner whose next statement or check succeeds; `free` says that nobody holds the lock. -/
def Runner.proceed (committed : List Write) (free holds : Bool) (r : Runner) : Option Move :=
  let log := committed ++ r.work
  let active : Runner := { r with txn := .active }
  match r.phase with
  | .fresh =>
    if free then some ⟨{ active with phase := .validate, taken := r.taken + 1 }, committed, true⟩ else none
  | .validate => some ⟨{ active with phase := .probe }, committed, holds⟩
  | .probe =>
    let pending := planPending package.migrations (package.appliedIds log)
    if r.expected.all (· = pending.map fun m => (m.id, m.checksum)) then
      some ⟨{ active with phase := if r.owns then .closeProbe pending else .loop pending }, committed, holds⟩
    else some ⟨active.raiseOuter, committed, holds⟩
  | .closeProbe pending => some ⟨{ r with phase := .loop pending, txn := .none, work := [] }, log, holds⟩
  | .loop [] => some ⟨r.return, committed, holds⟩
  | .loop (m :: later) =>
    match m.statements with
    | none => some ⟨active.raiseInner, committed, holds⟩
    | some statements => some ⟨{ active with phase := .execute m statements later }, committed, holds⟩
  | .execute m [] later => some ⟨{ r with phase := .record m later }, committed, holds⟩
  | .execute m (statement :: left) later =>
    some ⟨{ active with phase := .execute m left later, work := r.work ++ [.effect m.id statement] }, committed, holds⟩
  | .record m later =>
    let columns := (package.columns log).getD []
    if "id" ∈ columns then
      let recorded : Runner := { active with work := r.work ++ [.record (package.row columns m)] }
      if r.owns then some ⟨{ recorded with phase := .commit m later }, committed, holds⟩
      else some ⟨{ recorded with phase := .loop later, applied := r.applied ++ [m.id] }, committed, holds⟩
    else some ⟨active.raiseInner, committed, holds⟩
  | .commit m later =>
    some ⟨{ r with phase := .loop later, txn := .none, work := [], applied := r.applied ++ [m.id] }, log, holds⟩
  | .undo => some ⟨{ r.rollback with phase := .cleanup .raised }, committed, holds⟩
  | .cleanup outcome =>
    let r := if r.inTransaction then r.rollback else r
    some ⟨{ r with phase := .unlock outcome }, committed, holds⟩
  | .unlock outcome =>
    if r.stale then some ⟨{ r with phase := .ended .raised }, committed, holds⟩
    else some ⟨{ active with
      phase := .closeUnlock outcome holds, released := r.released + if holds then 1 else 0 }, committed, false⟩
  | .closeUnlock outcome released =>
    some ⟨{ r with phase := .ended (if released then outcome else .raised), txn := .none, work := [] }, log, holds⟩
  | .ended _ | .closed .. | .gone => none

/-- The step of a runner whose next statement or check fails. A rollback does not fail. -/
def Runner.fail (committed : List Write) (holds aborts : Bool) (r : Runner) : Option Move :=
  let hit : Runner := { r with txn := if aborts then .failed else .active }
  let undone : Runner := { r with txn := .none, stale := true, work := [] }
  match r.phase with
  | .fresh => some ⟨{ hit with phase := .ended .raised }, committed, holds⟩
  | .validate | .probe => some ⟨hit.raiseOuter, committed, holds⟩
  | .closeProbe _ => some ⟨undone.raiseOuter, committed, holds⟩
  | .loop (_ :: _) | .execute .. | .record .. => some ⟨hit.raiseInner, committed, holds⟩
  | .commit .. => some ⟨undone.raiseInner, committed, holds⟩
  | .unlock _ => some ⟨{ hit with phase := .ended .raised }, committed, holds⟩
  | .closeUnlock .. => some ⟨{ undone with phase := .ended .raised }, committed, holds⟩
  | .loop [] | .undo | .cleanup _ | .ended _ | .closed .. | .gone => none

/-- A commit is under way: that of a migration, or that of the caller. -/
def Runner.committing (r : Runner) : Bool :=
  match r.phase with
  | .commit .. => true
  | .ended _ => !r.owns && r.txn = .active
  | _ => false

/-- The step of a runner: a lost connection gives up its lock, as the end of a caller's transaction does. -/
def Runner.step (committed : List Write) (free holds : Bool) (r : Runner) : Event → Option Move
  | .proceed => r.proceed package committed free holds
  | .fail aborts => r.fail committed holds aborts
  | .lose effective =>
    if r.phase = .gone ∨ (effective = true ∧ r.committing = false) then none
    else some ⟨{ r.rollback with phase := .gone }, if effective then committed ++ r.work else committed, false⟩
  | .finish commits =>
    match r.phase with
    | .ended outcome =>
      if r.owns then none
      else
        let commits := commits && r.txn = .active
        some ⟨{ r.rollback with phase := .closed outcome commits },
          if commits then committed ++ r.work else committed, false⟩
    | _ => none

variable {ι : Type} [DecidableEq ι]

/-- The runners on one database: what is committed, and who holds the migration lock. -/
structure World (ι : Type) where
  committed : List Write
  holder : Option ι
  runner : ι → Runner

def World.step (w : World ι) (i : ι) (event : Event) : Option (World ι) :=
  ((w.runner i).step package w.committed (w.holder = none) (w.holder = some i) event).map fun move =>
    { committed := move.committed
      holder := if move.holds then some i else if w.holder = some i then none else w.holder
      runner := Function.update w.runner i move.runner }

/-- The runs from calls that have not begun, whose steps are all permitted. -/
inductive World.Run (permitted : Runner → Event → Prop) : World ι → Prop
  | start (owns : ι → Bool) (expected : ι → Option (List (String × String))) :
      World.Run permitted ⟨[], none, fun i => .start (owns i) (expected i)⟩
  | step {w w' : World ι} {i : ι} {event : Event} (before : World.Run permitted w)
      (allowed : permitted (w.runner i) event) (step : w.step package i event = some w') : World.Run permitted w'

end Taskq.Migrations
