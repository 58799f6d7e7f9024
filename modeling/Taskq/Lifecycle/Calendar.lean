import Mathlib.Logic.Relation
import Taskq.Lifecycle.MaintenancePaths

/-! What can happen to one schedule. As with jobs, a call is a sequence of labelled moves, and a move
changes the cursor of one schedule in one of the ways listed here. -/
namespace Taskq
open Relational

/-- The columns that decide when a schedule fires. -/
structure Cursor where
  definition : Jsonb × Jsonb × CatchupPolicy × ℤ
  state : ScheduleState
  initialized : Bool
  nextFireAt : Time
  version : ℤ
  claim : Option ScheduleClaim
  lastAction : Option LastAction

def ScheduleRow.cursor (r : ScheduleRow) : Cursor where
  definition := (r.target.normalize, r.recurrence.normalize, r.catchupPolicy, r.maxCatchup)
  state := r.state
  initialized := r.initialized
  nextFireAt := r.nextFireAt
  version := r.version
  claim := r.claim
  lastAction := r.lastAction

/-- The ways in which a call moves the cursor of a schedule. -/
inductive CursorChange where
  | mark | claim | restart | hold | fail | fire (dues : List Time)
  deriving DecidableEq, Repr

namespace Cursor

/-- The cursor of a schedule that was just put. -/
def Born (now : Time) (k : Cursor) : Prop :=
  k.initialized = false ∧ k.nextFireAt = now ∧ k.claim = none ∧ k.lastAction = none

/-- What each kind of move does at the time `now`. -/
inductive Step (now : Time) : CursorChange → Cursor → Cursor → Prop
  | mark (k : Cursor) : Step now .mark k k
  | claim (k : Cursor) (c : ScheduleClaim) (active : k.state = .active) (due : k.nextFireAt ≤ now)
      (free : k.claim.all (·.expiresAt ≤ now) = true) (seen : c.asOf = now) :
      Step now .claim k { k with claim := some c }
  | restart (k : Cursor) (definition : Jsonb × Jsonb × CatchupPolicy × ℤ) (state : ScheduleState)
      (last : Option LastAction) (kept : last = none ∨ last = k.lastAction) :
      Step now .restart k { k with
        definition := definition, state := state, initialized := false, nextFireAt := now
        version := k.version + 1, claim := none, lastAction := last }
  | hold (k : Cursor) (state : ScheduleState) (last : Option LastAction)
      (quiet : state = .active → k.state = .active) (kept : last = none ∨ last = k.lastAction) :
      Step now .hold k { k with
        state := state, version := k.version + 1, claim := none, lastAction := last }
  | fail (k : Cursor) (c : ScheduleClaim) (state : ScheduleState) (version : ℤ) (last : LastAction)
      (held : k.claim = some c) (token : last.token = c.token)
      (quiet : state = .active → k.state = .active) :
      Step now .fail k { k with
        state := state, version := version, claim := none, lastAction := some last }
  | fire (k : Cursor) (c : ScheduleClaim) (dues : List Time) (next : Time) (last : LastAction)
      (held : k.claim = some c) (token : last.token = c.token) (forward : k.nextFireAt < next)
      (compiled : dues ≠ [] → k.initialized = true)
      (first : k.initialized = false → c.asOf < next)
      (due : ∀ d ∈ dues, k.nextFireAt ≤ d ∧ d ≤ c.asOf ∧ d < next) :
      Step now (.fire dues) k { k with
        initialized := true, nextFireAt := next, claim := none, lastAction := some last }

end Cursor

/-- The schedules of an installation and the next fresh id. -/
structure Calendar where
  schedules : Table Uuid Schedule
  nextUuid : Uuid

def Db.calendar (db : Db) : Calendar := ⟨db.scheduling.schedules, db.nextUuid⟩

/-- One move of the calendar, labelled with the schedule and the change when there is one. -/
inductive CalendarMove (now : Time) : Option (Uuid × CursorChange) → Calendar → Calendar → Prop
  | mint {t : Table Uuid Schedule} {n m : Uuid} (later : n ≤ m) : CalendarMove now none ⟨t, n⟩ ⟨t, m⟩
  | write {t : Table Uuid Schedule} {n id : Uuid} {s s' : Schedule} {k : CursorChange}
      (plain : k ≠ .claim) (stored : t.get? id = some s) (step : Cursor.Step now k s.cursor s'.cursor) :
      CalendarMove now (some (id, k)) ⟨t, n⟩ ⟨t.put id s', n⟩
  | claim {t : Table Uuid Schedule} {n id : Uuid} {s s' : Schedule}
      (stored : t.get? id = some s) (step : Cursor.Step now .claim s.cursor s'.cursor)
      (token : ∀ c, s'.claim = some c → c.token = n) :
      CalendarMove now (some (id, .claim)) ⟨t, n⟩ ⟨t.put id s', n + 1⟩
  | create {t : Table Uuid Schedule} {n id : Uuid} {s : Schedule} (fresh : t.get? id = none)
      (minted : id < n) (born : s.cursor.Born now) : CalendarMove now none ⟨t, n⟩ ⟨t.put id s, n⟩
  | retag {t : Table Uuid Schedule} {n : Uuid} {f : Schedule → Schedule}
      (kept : ∀ s, (f s).cursor = s.cursor) : CalendarMove now none ⟨t, n⟩ ⟨t.mapRows f, n⟩

/-- Any number of moves whose changes are in a set. -/
abbrev CalendarSteps (now : Time) (S : Set (Uuid × CursorChange)) : Calendar → Calendar → Prop :=
  Labelled (CalendarMove now) {l | ∀ e ∈ l, e ∈ S}

namespace CalendarSteps

variable {now : Time} {S : Set (Uuid × CursorChange)} {c d : Calendar}

theorem quiet (move : CalendarMove now none c d) : CalendarSteps now S c d := .single move (by simp)

theorem change {l : Uuid × CursorChange} (move : CalendarMove now (some l) c d) (labelled : l ∈ S) :
    CalendarSteps now S c d :=
  .single move fun _ same => Option.mem_some_iff.mp same ▸ labelled

end CalendarSteps

section Rows

variable {now : Time} {l : Option (Uuid × CursorChange)} {c d : Calendar}

/-- What a move does to the row of one schedule. -/
inductive CursorMove (now : Time) (l : Option (Uuid × CursorChange)) (id n m : Uuid) :
    Option Schedule → Option Schedule → Prop
  | same (row : Option Schedule) : CursorMove now l id n m row row
  | change {k : CursorChange} {s s' : Schedule} (label : l = some (id, k))
      (step : Cursor.Step now k s.cursor s'.cursor)
      (token : k = .claim → n < m ∧ ∀ c, s'.claim = some c → c.token = n) :
      CursorMove now l id n m (some s) (some s')
  | retag {s s' : Schedule} (kept : s'.cursor = s.cursor) : CursorMove now l id n m (some s) (some s')
  | create {s : Schedule} (minted : id < m) (born : s.cursor.Born now) :
      CursorMove now l id n m none (some s)

theorem CalendarMove.row (move : CalendarMove now l c d) (id : Uuid) :
    CursorMove now l id c.nextUuid d.nextUuid (c.schedules.get? id) (d.schedules.get? id) := by
  cases move with
  | mint => exact .same _
  | write plain stored step =>
    simp only [Table.get?_put]
    split_ifs with same
    · subst same
      rw [stored]
      exact .change rfl step fun claim => absurd claim plain
    · exact .same _
  | claim stored step token =>
    simp only [Table.get?_put]
    split_ifs with same
    · subst same
      rw [stored]
      exact .change rfl step fun _ => ⟨Nat.lt_succ_self _, token⟩
    · exact .same _
  | create fresh minted born =>
    simp only [Table.get?_put]
    split_ifs with same
    · subst same
      rw [fresh]
      exact .create minted born
    · exact .same _
  | @retag t n f kept =>
    simp only [Table.get?_mapRows]
    cases t.get? id with
    | none => exact .same _
    | some s => exact .retag (kept s)

theorem CalendarMove.nextUuid_le (move : CalendarMove now l c d) : c.nextUuid ≤ d.nextUuid := by
  cases move with
  | mint later => exact later
  | claim => exact Nat.le_succ _
  | write | create | retag => exact le_rfl

end Rows

section Writes

/-- The target is one that a definition gave on this server. -/
def Normalized (site : Site) (target : Jsonb) : Prop :=
  ∃ env given db, env.toSite = site ∧ normalizeTarget env given db = .ok target

/-- One statement on the table of schedules: a row is rewritten under its name, with its old target or with
that of a definition; a row comes in under a new name; or all rows get a tag. -/
inductive ScheduleWrite (site : Site) : Table Uuid Schedule → Table Uuid Schedule → Prop
  | rewrite {t : Table Uuid Schedule} {id : Uuid} {s s' : Schedule} (stored : t.get? id = some s)
      (name : s'.name = s.name) (target : s'.target = s.target ∨ Normalized site s'.target) :
      ScheduleWrite site t (t.put id s')
  | create {t : Table Uuid Schedule} {id : Uuid} {s : Schedule} (fresh : t.get? id = none)
      (named : ∀ other r, t.get? other = some r → r.name ≠ s.name) (target : Normalized site s.target) :
      ScheduleWrite site t (t.put id s)
  | retag {t : Table Uuid Schedule} {f : Schedule → Schedule}
      (kept : ∀ s, (f s).name = s.name ∧ (f s).target = s.target) : ScheduleWrite site t (t.mapRows f)

/-- Any number of them. -/
abbrev ScheduleWrites (site : Site) : Table Uuid Schedule → Table Uuid Schedule → Prop :=
  Relation.ReflTransGen (ScheduleWrite site)

end Writes

end Taskq
