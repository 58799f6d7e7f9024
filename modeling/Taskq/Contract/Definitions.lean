import Taskq.Contract.Retirement

/-! Writing schedules: what a successful write leaves, and the two writes that are answered with
`unchanged` although they touch a retired schedule or a derived column. -/
namespace Taskq
open Relational

/-- A call of `put_schedule`, or of `put_managed_schedule` when it brings metadata. -/
structure PutCall where
  name : Option String
  definition : Jsonb
  actor : Option String
  expected : Option ℤ
  metadata : Option Metadata

namespace PutCall

def run (env : Env) (c : PutCall) (db : Db) : Call (WriteResult × Db) :=
  match c.metadata with
  | none => putSchedule env c.name c.definition c.actor c.expected db
  | some m => putManagedSchedule env c.name c.definition m c.actor c.expected db

/-- The arguments pass every check that does not depend on the row of the name, and the metadata
belongs to it. -/
structure Valid (env : Env) (c : PutCall) (db : Db) (d : Definition) : Prop where
  attested : env.attested = true
  header : reservedHeader c.definition = false
  name : c.name.any (fun n => isScheduleName n ∧ n ≠ janitorName) = true
  actor : actorOk c.actor = true
  expected : c.expected.all (0 < ·) = true
  parse : parseDefinition env c.definition db = .ok d
  metadata : ∀ m ∈ c.metadata, m.ok c.name = true ∧ m.overlapPolicy ≠ none ∧
    ((c.name.bind (scheduleByName db)).map (·.2.toScheduleRow)).all m.sameOwner = true

/-- The row agrees with the requested definition, and with the requested pause or the expected
version. -/
def Agrees (expected : Option ℤ) (d : Definition) (s : ScheduleRow) : Prop :=
  s.target.fieldText? "kind" = some "job" ∧ d.sameAs s = true ∧
    match expected with
    | none => (s.state = .paused) = (d.paused = true)
    | some version => version = s.version ∧ s.state ≠ .retired ∧ s.state = d.state

/-- The columns that `put_schedule` derives are on record. -/
structure Recorded (env : Env) (s : ScheduleRow) : Prop where
  hash : s.definitionHash = definitionHash env s
  manifestKey : s.manifestKey = "legacy" → s.name = "legacy"
  displayName : s.displayName = "legacy" → s.name = "legacy"

/-- What the contract promises of a call: it leaves retired schedules as they are and rejects theirs;
the row it answers for has the requested definition and state, and has not changed when the answer
says so. -/
def Truthful (env : Env) (c : PutCall) (db : Db) : Prop :=
  ∀ answer db', c.run env db = .ok (answer, db') →
    (∀ id s, db.scheduling.schedules.get? id = some s → s.state = .retired →
      db'.scheduling.schedules.get? id = some s ∧ c.name ≠ some s.name) ∧
    (∃ d r, parseDefinition env c.definition db = .ok d ∧
      db'.scheduling.schedules.get? answer.scheduleId = some r ∧ c.name = some r.name ∧
      d.sameAs r.toScheduleRow = true ∧ r.state = d.state) ∧
    (answer.outcome = .unchanged →
      db'.scheduling.schedules.get? answer.scheduleId = db.scheduling.schedules.get? answer.scheduleId)

/-- A row that a valid call agrees with is live, and has its derived columns on record when no metadata
come with the call. -/
def Plain (env : Env) (c : PutCall) (db : Db) : Prop :=
  ∀ id s d, c.name.bind (scheduleByName db) = some (id, s) → c.Valid env db d →
    Agrees c.expected d s.toScheduleRow →
    s.state ≠ .retired ∧ (c.metadata = none → Recorded env s.toScheduleRow)

end PutCall

section Body

variable {env : Env} {db db' db₁ : Db} {id : Uuid} {s : Schedule} {d : Definition} {definition : Jsonb}
  {n : String} {name actor : Option String} {expected : Option ℤ} {answer : WriteResult}

/-- A call on a row that agrees ends without a write. -/
theorem putScheduleUnattested_agrees
    (valid : (some n).any (fun n => isScheduleName n ∧ n ≠ janitorName) = true)
    (signed : actorOk actor = true) (positive : expected.all (0 < ·) = true)
    (parse : parseDefinition env definition db = .ok d) (found : scheduleByName db n = some (id, s))
    (agrees : PutCall.Agrees expected d s.toScheduleRow) :
    putScheduleUnattested env (some n) definition actor expected db =
      .ok (s.result .unchanged id, db) := by
  obtain ⟨job, same, rest⟩ := agrees
  have named : (scheduleByName db ((some n).getD "")) = some (id, s) := found
  simp only [putScheduleUnattested, ensure, valid, signed, positive, parse, named, job, if_true, bind,
    Except.bind]
  cases expected with
  | none =>
    have paused : d.sameAs s.toScheduleRow = true ∧ (s.state = .paused) = (d.paused = true) := ⟨same, rest⟩
    simp only [paused, and_self, if_true]
  | some version =>
    obtain ⟨rfl, live, state⟩ := rest
    have both : d.sameAs s.toScheduleRow = true ∧ s.state = d.state := ⟨same, state⟩
    simp only [if_true, if_pos live, if_pos both]

/-- How the body of a write ends: without a write on a row that agrees, or with a row of the requested
definition and state in the place of a live one or of none. -/
theorem putScheduleUnattested_ends
    (run : putScheduleUnattested env name definition actor expected db = .ok (answer, db')) :
    ∃ n d, name = some n ∧ (some n).any (fun n => isScheduleName n ∧ n ≠ janitorName) = true ∧
      actorOk actor = true ∧ expected.all (0 < ·) = true ∧ parseDefinition env definition db = .ok d ∧
      ((∃ s, scheduleByName db n = some (answer.scheduleId, s) ∧
          PutCall.Agrees expected d s.toScheduleRow ∧ answer.outcome = .unchanged ∧ db' = db) ∨
        ∃ r, db'.scheduling.schedules.get? answer.scheduleId = some r ∧ r.name = n ∧
          d.sameAs r.toScheduleRow = true ∧ r.state = d.state ∧ answer.outcome.changed = true ∧
          (∀ other, other ≠ answer.scheduleId →
            db'.scheduling.schedules.get? other = db.scheduling.schedules.get? other) ∧
          (scheduleByName db n = none ∧ db.scheduling.schedules.get? answer.scheduleId = none ∨
            ∃ s, scheduleByName db n = some (answer.scheduleId, s) ∧ s.state ≠ .retired ∧
              ¬PutCall.Agrees expected d s.toScheduleRow)) := by
  simp only [putScheduleUnattested, newUuid, seq_eq_ok, ensure_eq_ok] at run
  obtain ⟨⟨⟩, valid, ⟨⟩, signed, ⟨⟩, positive, d, parse, run⟩ := run
  obtain ⟨n, rfl, -⟩ := Option.any_eq_true _ _ |>.mp valid
  refine ⟨n, d, rfl, valid, signed, positive, parse, ?_⟩
  have requested : ∀ {r : ScheduleRow}, d.checkPolicy = .ok () → r.target = d.target → r.recurrence = d.recurrence →
      r.catchupPolicy = d.policy → r.maxCatchup = d.maxCatchup → d.sameAs r = true := by
    intro r written target recurrence policy most
    obtain ⟨p, there⟩ := Option.isSome_iff_exists.mp (ensure_eq_ok.mp written)
    simp [Definition.sameAs, Definition.policy, Jsonb.same, target, recurrence, policy, most, there]
  split at run
  · rename_i unknown
    simp only [seq_eq_ok, ensure_eq_ok] at run
    obtain ⟨⟨⟩, -, ⟨⟩, policy, ⟨⟩, free, written, write, finish⟩ := run
    cases finish
    obtain ⟨row, same, rfl⟩ := writeSchedule_frame write
    have free : db.scheduling.schedules.get? db.nextUuid = none := by simpa [scheduleById] using free
    refine .inr ⟨row, Table.get?_put_self _ _ _, ?_, ?_, ?_, rfl, fun other apart => ?_, .inl ⟨unknown, free⟩⟩
    · rw [same]
      rfl
    · rw [same]
      exact requested policy rfl rfl rfl rfl
    · rw [same]
      rfl
    · exact Table.get?_put_of_ne _ _ apart
  · rename_i id s found
    simp only [seq_eq_ok, ensure_eq_ok] at run
    obtain ⟨⟨⟩, job, run⟩ := run
    split at run
    · simp only [seq_eq_ok, ensure_eq_ok] at run
      obtain ⟨⟨⟩, same, finish⟩ := run
      cases finish
      exact .inl ⟨s, found, ⟨job, same.1, same.2⟩, rfl, rfl⟩
    · rename_i version
      simp only [seq_eq_ok, ensure_eq_ok] at run
      obtain ⟨⟨⟩, current, ⟨⟩, live, run⟩ := run
      split at run
      · rename_i same
        cases run
        exact .inl ⟨s, found, ⟨job, same.1, current, live, same.2⟩, rfl, rfl⟩
      · rename_i differs
        simp only [seq_eq_ok] at run
        obtain ⟨⟨⟩, policy, written, write, finish⟩ := run
        cases finish
        obtain ⟨row, same, rfl⟩ := writeSchedule_frame write
        refine .inr ⟨row, Table.get?_put_self _ _ _, ?_, ?_, ?_, rfl, fun other apart => ?_,
          .inr ⟨s, found, live, fun agrees => differs ⟨agrees.2.1, agrees.2.2.2.2⟩⟩⟩
        · rw [same]
          exact of_decide_eq_true (Table.mem_select.mp (List.mem_of_mem_head? found)).2
        · rw [same]
          exact requested policy rfl rfl rfl rfl
        · rw [same]
          rfl
        · exact Table.get?_put_of_ne _ _ apart

/-- A live row that agrees has the requested state. -/
theorem PutCall.Agrees.state {s : ScheduleRow} (agrees : PutCall.Agrees expected d s) (live : s.state ≠ .retired) :
    s.state = d.state := by
  obtain ⟨-, -, rest⟩ := agrees
  cases expected with
  | some version => exact rest.2.2
  | none =>
    cases paused : d.paused <;> cases stands : s.state <;> simp_all [Definition.state]

end Body

section Wrappers

variable {site : Site} {env : Env} {db db' cleared : Db} {id : Uuid} {s : Schedule} {d : Definition}
  {definition : Jsonb} {n : String} {name : Option String} {expected : Option ℤ} {answer : WriteResult} {c : PutCall}

/-- The text casts read the two booleans. -/
def ReadsBool (env : Env) : Prop := env.parseBool "true" = some true ∧ env.parseBool "false" = some false

/-- The pause switch has one value for the wrapper and the body. -/
theorem wantsPaused_eq (reads : ReadsBool env) (parse : parseDefinition env definition db = .ok d) :
    wantsPaused env definition = .ok d.paused := by
  obtain ⟨-, -, boolean, paused⟩ := parseDefinition_parts parse
  simp only [wantsPaused, castText, Jsonb.fieldText?, paused]
  cases given : definition.field? "paused" with
  | none => rfl
  | some value =>
    rw [given, Option.all_some, decide_eq_true_eq] at boolean
    cases value with
    | bool b => cases b <;> simp [Jsonb.scalarText?, Jsonb.text, Jsonb.chars, reads.1, reads.2, bind, Except.bind]
    | _ => cases boolean

/-- What the metadata step does not touch. -/
structure Marks (s r : ScheduleRow) : Prop where
  name : r.name = s.name
  target : r.target = s.target
  recurrence : r.recurrence = s.recurrence
  catchupPolicy : r.catchupPolicy = s.catchupPolicy
  maxCatchup : r.maxCatchup = s.maxCatchup
  state : r.state = s.state

theorem Marks.sameAs {s r : ScheduleRow} (marks : Marks s r) (d : Definition) : d.sameAs r = d.sameAs s := by
  simp only [Definition.sameAs, marks.target, marks.recurrence, marks.catchupPolicy, marks.maxCatchup]

/-- A successful call clears the audit, runs the body and marks the row. -/
theorem PutCall.run_steps (run : c.run env db = .ok (answer, db')) :
    (env.attested = true ∧ reservedHeader c.definition = false ∧
      ∀ m ∈ c.metadata, m.ok c.name = true ∧
        ((c.name.bind (scheduleByName db)).map (·.2.toScheduleRow)).all m.sameOwner = true) ∧
    ∃ cleared result put, clearAudit env c.name c.definition db = .ok cleared ∧
      putScheduleUnattested env c.name c.definition c.actor c.expected cleared = .ok (result, put) ∧
      (∀ s, put.scheduling.schedules.get? result.scheduleId = some s →
        (∀ m ∈ c.metadata, m.overlapPolicy ≠ none) ∧ answer.scheduleId = result.scheduleId ∧
        (answer.outcome = .unchanged → result.outcome = .unchanged) ∧
        ∃ r, db' = put.putSchedule result.scheduleId r ∧ Marks s.toScheduleRow r.toScheduleRow) := by
  unfold PutCall.run at run
  split at run
  · rename_i absent
    simp only [putSchedule, seq_eq_ok, ensure_eq_ok] at run
    obtain ⟨⟨⟩, attested, ⟨⟩, header, cleared, clear, ⟨result, put⟩, body, run⟩ := run
    refine ⟨⟨attested, header, by simp [absent]⟩, cleared, result, put, clear, body, fun s stored => ?_⟩
    simp only [scheduleById, stored] at run
    obtain ⟨written, write, finish⟩ := seq_eq_ok.mp run
    cases finish
    obtain ⟨r, same, rfl⟩ := writeSchedule_frame write
    refine ⟨by simp [absent], rfl, fun h => h, r, rfl, ?_⟩
    rw [same]
    exact ⟨rfl, rfl, rfl, rfl, rfl, rfl⟩
  · rename_i m given
    simp only [putManagedSchedule, seq_eq_ok, ensure_eq_ok] at run
    obtain ⟨⟨⟩, attested, ⟨⟩, request, ⟨⟩, owned, cleared, clear, ⟨result, put⟩, body, run⟩ := run
    refine ⟨⟨attested, request.2, fun m' member => ?_⟩, cleared, result, put, clear, body, fun s stored => ?_⟩
    · obtain rfl := Option.some.inj (given.symm.trans member)
      exact ⟨request.1, owned⟩
    simp only [scheduleById, stored] at run
    obtain ⟨marked, mark, run⟩ := seq_eq_ok.mp run
    have overlap : m.overlapPolicy ≠ none ∧ Marks s.toScheduleRow marked := by
      unfold applyMetadata at mark
      split at mark
      · cases mark
      · rename_i overlap there
        cases mark
        exact ⟨by simp [there], rfl, rfl, rfl, rfl, rfl, rfl⟩
    refine ⟨fun m' member => ?_, ?_⟩
    · obtain rfl := Option.some.inj (given.symm.trans member)
      exact overlap.1
    obtain ⟨name, target, recurrence, policy, most, state⟩ := overlap.2
    split at run
    · obtain ⟨written, write, finish⟩ := seq_eq_ok.mp run
      cases finish
      obtain ⟨r, same, rfl⟩ := writeSchedule_frame write
      refine ⟨rfl, (by rintro ⟨⟩), r, rfl, ?_⟩
      rw [same]
      exact ⟨name, target, recurrence, policy, most, state⟩
    · obtain ⟨written, write, finish⟩ := seq_eq_ok.mp run
      cases finish
      obtain ⟨r, same, rfl⟩ := writeSchedule_frame write
      refine ⟨rfl, fun h => h, r, rfl, ?_⟩
      rw [same]
      exact ⟨name, target, recurrence, policy, most, state⟩

/-- Clearing the audit writes the row of the name, unless it is to be paused. The name still leads to the row. -/
theorem clearAudit_ends (ok : Timetabled site db.scheduling.schedules)
    (clear : clearAudit env name definition db = .ok cleared) :
    (cleared = db ∧ (wantsPaused env definition = .ok true ∨ name.bind (scheduleByName db) = none)) ∨
      ∃ id s r, name.bind (scheduleByName db) = some (id, s) ∧
        r.toScheduleRow = { s.toScheduleRow with pausedAudit := none } ∧ cleared = db.putSchedule id r ∧
        name.bind (scheduleByName cleared) = some (id, r) := by
  obtain ⟨paused, wants, body⟩ := seq_eq_ok.mp clear
  split at body
  · rename_i unknown
    cases body
    exact .inl ⟨rfl, .inr unknown⟩
  · rename_i id s found
    split at body
    · rename_i pauses
      cases body
      exact .inl ⟨rfl, .inl (wants.trans (congrArg Except.ok pauses))⟩
    · obtain ⟨r, row, rfl⟩ := writeSchedule_frame body
      obtain ⟨n, rfl, found'⟩ := Option.bind_eq_some_iff.mp found
      have stored := scheduleByName_eq_some found'
      have own : s.name = n := of_decide_eq_true (Table.mem_select.mp (List.mem_of_mem_head? found')).2
      have later : Timetabled site (db.putSchedule id r).scheduling.schedules :=
        ok.write (.rewrite stored (by rw [row]) (.inl (by rw [row])))
      refine .inr ⟨id, s, r, found, row, rfl, ?_⟩
      have leads := later.byName (Table.get?_put_self _ id r)
      rw [row] at leads
      exact own ▸ leads

/-- On a row that agrees, clearing the audit changes nothing: the audit of a row that is not paused is
empty. -/
theorem clearAudit_agrees (reads : ReadsBool env) (parse : parseDefinition env definition db = .ok d)
    (found : scheduleByName db n = some (id, s)) (agrees : PutCall.Agrees expected d s.toScheduleRow) :
    clearAudit env (some n) definition db = .ok db ∨
      clearAudit env (some n) definition db = .ok (db.putSchedule id s) := by
  have named : (some n).bind (scheduleByName db) = some (id, s) := found
  simp only [clearAudit, wantsPaused_eq reads parse, named, bind, Except.bind]
  cases paused : d.paused with
  | true => exact .inl rfl
  | false =>
    have running : s.state ≠ .paused := by
      obtain ⟨-, -, rest⟩ := agrees
      cases expected with
      | none => exact fun stopped => by simp [stopped, paused] at rest
      | some version =>
        rw [rest.2.2, Definition.state, paused]
        decide
    have checks := s.checks
    have unaudited : s.pausedAudit = none := by
      simp only [ScheduleRow.checksOk, Bool.and_eq_true] at checks
      cases audit : s.pausedAudit with
      | none => rfl
      | some a =>
        rw [audit] at checks
        simp [running] at checks
    have same : { s.toScheduleRow with pausedAudit := none } = s.toScheduleRow := by
      rw [← unaudited]
    refine .inr ?_
    simp only [writeSchedule, storeSchedule, same, s.checks, bind, Except.bind]
    rfl

theorem Schedule.eq_iff {r s : Schedule} : r = s ↔ r.toScheduleRow = s.toScheduleRow := by
  cases r
  cases s
  simp

/-- The row with its derived columns. -/
def recordedRow (env : Env) (s : ScheduleRow) : ScheduleRow :=
  { s with
    manifestKey := if s.manifestKey = "legacy" then s.name else s.manifestKey
    displayName := if s.displayName = "legacy" then s.name else s.displayName
    definitionHash := definitionHash env s }

theorem recordedRow_eq {s : ScheduleRow} : recordedRow env s = s ↔ PutCall.Recorded env s := by
  constructor
  · intro same
    have key : (if s.manifestKey = "legacy" then s.name else s.manifestKey) = s.manifestKey :=
      congrArg ScheduleRow.manifestKey same
    have display : (if s.displayName = "legacy" then s.name else s.displayName) = s.displayName :=
      congrArg ScheduleRow.displayName same
    refine ⟨(congrArg ScheduleRow.definitionHash same).symm, fun placeholder => ?_, fun placeholder => ?_⟩
    · rwa [if_pos placeholder, placeholder] at key
    · rwa [if_pos placeholder, placeholder] at display
  · rintro ⟨hash, key, display⟩
    have key : (if s.manifestKey = "legacy" then s.name else s.manifestKey) = s.manifestKey := by
      split_ifs with placeholder
      · rw [key placeholder, placeholder]
      · rfl
    have display : (if s.displayName = "legacy" then s.name else s.displayName) = s.displayName := by
      split_ifs with placeholder
      · rw [display placeholder, placeholder]
      · rfl
    unfold recordedRow
    rw [key, display, ← hash]

/-- The derived columns alone are written where the body answered that nothing changed. -/
theorem putSchedule_agrees {actor : Option String} (attested : env.attested = true)
    (header : reservedHeader definition = false) (clear : clearAudit env name definition db = .ok cleared)
    (body : putScheduleUnattested env name definition actor expected cleared =
      .ok (s.result .unchanged id, cleared)) (stored : scheduleById cleared id = some s) :
    putSchedule env name definition actor expected db =
      .ok (s.result .unchanged id, cleared.putSchedule id ⟨recordedRow env s.toScheduleRow, s.checks⟩) := by
  have found : scheduleById cleared (s.result .unchanged id).scheduleId = some s := stored
  have row : writeSchedule id (recordedRow env s.toScheduleRow) cleared =
      .ok (cleared.putSchedule id ⟨recordedRow env s.toScheduleRow, s.checks⟩) := by
    have checks : (recordedRow env s.toScheduleRow).checksOk = true := s.checks
    simp only [writeSchedule, storeSchedule, checks, bind, Except.bind]
    rfl
  simp only [putSchedule, ensure, attested, header, clear, body, found, if_true, bind, Except.bind]
  exact congrArg (Except.map fun db => (s.result .unchanged id, db)) row

/-- The metadata are written as they are, or with a new version where they differ. -/
theorem putManagedSchedule_agrees {actor : Option String} {m : Metadata} {overlap : OverlapPolicy}
    (attested : env.attested = true) (request : m.ok name = true ∧ reservedHeader definition = false)
    (before : name.bind (scheduleByName db) = some (id, s)) (owner : m.sameOwner s.toScheduleRow = true)
    (policy : m.overlapPolicy = some overlap)
    (clear : clearAudit env name definition db = .ok cleared)
    (body : putScheduleUnattested env name definition actor expected cleared =
      .ok (s.result .unchanged id, cleared)) (stored : scheduleById cleared id = some s) :
    ∃ answer r, putManagedSchedule env name definition m actor expected db =
        .ok (answer, cleared.putSchedule id r) ∧ answer.scheduleId = id ∧
      Marks s.toScheduleRow r.toScheduleRow ∧ (answer.outcome = .unchanged → r = s) := by
  have found : scheduleById cleared (s.result .unchanged id).scheduleId = some s := stored
  have prior : (name.bind (scheduleByName db)).map (·.2.toScheduleRow) = some s.toScheduleRow := by
    rw [before, Option.map_some]
  obtain ⟨namespaces, sources, keys⟩ : s.ownerNamespace = m.ownerNamespace ∧ s.source = m.source ∧
      s.manifestKey = m.manifestKey := by
    simpa [Metadata.sameOwner, and_assoc] using owner
  let marked : ScheduleRow := { s.toScheduleRow with
    ownerNamespace := m.ownerNamespace, source := m.source, manifestKey := m.manifestKey
    displayName := m.displayName, definitionHash := m.definitionHash, overlapPolicy := overlap
    maxLatenessSeconds := m.maxLatenessSeconds }
  have mark : applyMetadata m s.toScheduleRow = .ok marked := by simp only [applyMetadata, policy, marked]
  have writes : ∀ {r : ScheduleRow} (checks : r.checksOk = true),
      writeSchedule id r cleared = .ok (cleared.putSchedule id ⟨r, checks⟩) := by
    intro r checks
    simp only [writeSchedule, storeSchedule, checks, bind, Except.bind]
    rfl
  simp only [putManagedSchedule, ensure, attested, request, clear, body, found, mark, prior, owner,
    Option.all_some, and_self, if_true, bind, Except.bind]
  by_cases differs : m.differs s.toScheduleRow = true
  · have checks : (remarked env marked actor).checksOk = true := by
      have before := s.checks
      simp only [ScheduleRow.checksOk, Bool.and_eq_true, decide_eq_true_eq, and_assoc] at before
      obtain ⟨low, high, version, shape, -⟩ := before
      have later : 0 < s.version + 1 := by omega
      simp [ScheduleRow.checksOk, remarked, ScheduleRow.invalidated, marked, low, high, later, shape]
    refine ⟨(remarked env marked actor).result .updated id, ⟨_, checks⟩, ?_, rfl, ⟨rfl, rfl, rfl, rfl, rfl, rfl⟩,
      by rintro ⟨⟩⟩
    have changed : (s.result .unchanged id).outcome = .unchanged ∧
        (some s.toScheduleRow).any m.differs = true := ⟨rfl, differs⟩
    rw [if_pos changed]
    exact congrArg (Except.map fun db => ((remarked env marked actor).result .updated id, db)) (writes checks)
  · have same : marked = s.toScheduleRow := by
      simp only [Metadata.differs, Bool.or_eq_true, decide_eq_true_eq, not_or, not_not, ne_eq, policy,
        Option.some.injEq] at differs
      obtain ⟨⟨⟨display, hash⟩, overlaps⟩, lateness⟩ := differs
      simp only [marked, ← namespaces, ← sources, ← keys, ← display, ← hash, ← overlaps, ← lateness]
    have unchanged : ¬((s.result .unchanged id).outcome = .unchanged ∧
        (some s.toScheduleRow).any m.differs = true) := fun both => differs both.2
    refine ⟨s.result .unchanged id, s, ?_, rfl, ⟨rfl, rfl, rfl, rfl, rfl, rfl⟩, fun _ => rfl⟩
    rw [if_neg unchanged, same]
    exact congrArg (Except.map fun db => (s.result .unchanged id, db)) (writes s.checks)

/-- A valid call that the row agrees with succeeds on that row. -/
theorem PutCall.run_agrees (reads : ReadsBool env) (ok : Timetabled site db.scheduling.schedules)
    (named : c.name = some n) (found : scheduleByName db n = some (id, s)) (valid : c.Valid env db d)
    (agrees : PutCall.Agrees c.expected d s.toScheduleRow) :
    ∃ answer r, c.run env db = .ok (answer, db.putSchedule id r) ∧ answer.scheduleId = id ∧
      Marks s.toScheduleRow r.toScheduleRow ∧
      (c.metadata = none → answer.outcome = .unchanged ∧ (r = s ↔ PutCall.Recorded env s.toScheduleRow)) ∧
      (c.metadata ≠ none → answer.outcome = .unchanged → r = s) := by
  have stored := scheduleByName_eq_some found
  have self : s.name = n := of_decide_eq_true (Table.mem_select.mp (List.mem_of_mem_head? found)).2
  obtain ⟨cleared, clear, found', parse, rows⟩ : ∃ cleared,
      clearAudit env c.name c.definition db = .ok cleared ∧ scheduleByName cleared n = some (id, s) ∧
      parseDefinition env c.definition cleared = .ok d ∧
      ∀ r, cleared.putSchedule id r = db.putSchedule id r := by
    rw [named]
    obtain quiet | written := clearAudit_agrees reads valid.parse found agrees
    · exact ⟨db, quiet, found, valid.parse, fun _ => rfl⟩
    · refine ⟨_, written, ?_, valid.parse, fun r => by simp [Db.putSchedule]⟩
      have later : Timetabled site (db.putSchedule id s).scheduling.schedules :=
        ok.write (.rewrite stored rfl (.inl rfl))
      rw [← self]
      exact later.byName (Table.get?_put_self _ _ _)
  have there : scheduleById cleared id = some s := scheduleByName_eq_some found'
  have body := putScheduleUnattested_agrees (named ▸ valid.name) valid.actor valid.expected parse found' agrees
  rw [← named] at body
  unfold PutCall.run
  cases given : c.metadata with
  | none =>
    have run := putSchedule_agrees valid.attested valid.header clear body there
    rw [rows] at run
    refine ⟨_, _, run, rfl, ⟨rfl, rfl, rfl, rfl, rfl, rfl⟩, fun _ => ⟨rfl, ?_⟩, fun some => absurd rfl some⟩
    rw [← recordedRow_eq]
    exact Schedule.eq_iff
  | some m =>
    obtain ⟨request, policy, owner⟩ := valid.metadata m given
    have before : c.name.bind (scheduleByName db) = some (id, s) := by rw [named]; exact found
    obtain ⟨overlap, policy⟩ := Option.ne_none_iff_exists'.mp policy
    obtain ⟨answer, r, run, own, marks, kept⟩ := putManagedSchedule_agrees valid.attested
      ⟨request, valid.header⟩ before (by simpa [before] using owner) policy clear body there
    exact ⟨answer, r, run.trans (by rw [rows]), own, marks, nofun, fun _ => kept⟩

/-- A successful call was valid; it found a row that agrees, or it replaced a live row or added one. -/
theorem PutCall.run_ends (ok : Timetabled site db.scheduling.schedules) (run : c.run env db = .ok (answer, db')) :
    ∃ n d, c.name = some n ∧ c.Valid env db d ∧
      ((∃ id s, scheduleByName db n = some (id, s) ∧ PutCall.Agrees c.expected d s.toScheduleRow) ∨
        ∃ r, db'.scheduling.schedules.get? answer.scheduleId = some r ∧ r.name = n ∧
          d.sameAs r.toScheduleRow = true ∧ r.state = d.state ∧ answer.outcome ≠ .unchanged ∧
          (∀ other, other ≠ answer.scheduleId →
            db'.scheduling.schedules.get? other = db.scheduling.schedules.get? other) ∧
          ∀ id s, db.scheduling.schedules.get? id = some s →
            (s.name = n ↔ id = answer.scheduleId) ∧ (s.name = n → s.state ≠ .retired)) := by
  obtain ⟨⟨attested, header, managed⟩, cleared, result, put, clear, body, finish⟩ := PutCall.run_steps run
  obtain ⟨n, d, named, valid, signed, positive, parse, ends⟩ := putScheduleUnattested_ends body
  -- Clearing the audit keeps the rows, their names and what a call agrees with.
  obtain ⟨queues, absent, present, others⟩ :
      cleared.queues = db.queues ∧ (scheduleByName cleared n = none → cleared = db ∧ scheduleByName db n = none) ∧
      (∀ id r, scheduleByName cleared n = some (id, r) → ∃ s, scheduleByName db n = some (id, s) ∧
        ∃ audit, r.toScheduleRow = { s.toScheduleRow with pausedAudit := audit }) ∧
      (∀ id r other, scheduleByName cleared n = some (id, r) → other ≠ id →
        cleared.scheduling.schedules.get? other = db.scheduling.schedules.get? other) := by
    obtain ⟨rfl, -⟩ | ⟨id, s, r, found, row, rfl, leads⟩ := clearAudit_ends ok clear
    · exact ⟨rfl, fun unknown => ⟨rfl, unknown⟩, fun id r found => ⟨r, found, r.pausedAudit, rfl⟩,
        fun _ _ _ _ _ => rfl⟩
    · replace found : scheduleByName db n = some (id, s) := by simpa [named] using found
      replace leads : scheduleByName (db.putSchedule id r) n = some (id, r) := by simpa [named] using leads
      refine ⟨rfl, fun unknown => by simp [unknown] at leads, fun id' r' found' => ?_, fun id' r' other found' apart => ?_⟩
      · cases leads.symm.trans found'
        exact ⟨s, found, none, row⟩
      · cases leads.symm.trans found'
        exact Table.get?_put_of_ne _ _ apart
  have same : parseDefinition env c.definition cleared = parseDefinition env c.definition db := by
    simp only [parseDefinition, normalizeTarget, queues]
  rw [same] at parse
  obtain ⟨r, stored⟩ : ∃ r, put.scheduling.schedules.get? result.scheduleId = some r := by
    obtain ⟨s, found, -, -, rfl⟩ | ⟨r, stored, -⟩ := ends
    exacts [⟨s, scheduleByName_eq_some found⟩, ⟨r, stored⟩]
  obtain ⟨overlap, own, outcome, marked, rfl, marks⟩ := finish r stored
  refine ⟨n, d, named, ⟨attested, header, named ▸ valid, signed, positive, parse, fun m member =>
    ⟨(managed m member).1, overlap m member, (managed m member).2⟩⟩, ?_⟩
  obtain ⟨s, found, agrees, -, rfl⟩ | ⟨r', stored', name, requested, state, changed, frame, before⟩ := ends
  · obtain ⟨prior, there, audit, row⟩ := present _ _ found
    refine .inl ⟨_, prior, there, ?_⟩
    rw [row] at agrees
    exact agrees
  · cases stored.symm.trans stored'
    refine .inr ⟨marked, own ▸ Table.get?_put_self _ _ _, marks.name.trans name, (marks.sameAs d).trans requested,
      marks.state.trans state, fun unchanged => ?_, fun other apart => ?_, fun id s there => ?_⟩
    · rw [outcome unchanged] at changed
      cases changed
    · rw [own] at apart
      refine (Table.get?_put_of_ne _ _ apart).trans ((frame other apart).trans ?_)
      obtain ⟨unknown, -⟩ | ⟨s, found, -⟩ := before
      · rw [(absent unknown).1]
      · exact others _ _ other found apart
    · rw [own]
      obtain ⟨unknown, fresh⟩ | ⟨s', found', live, -⟩ := before
      · obtain ⟨rfl, unknown⟩ := absent unknown
        have apart := scheduleByName_eq_none unknown there
        exact ⟨iff_of_false apart fun same => by simp [same ▸ there] at fresh, fun same => absurd same apart⟩
      · obtain ⟨prior, found, audit, row⟩ := present _ _ found'
        have named : prior.name = n :=
          of_decide_eq_true (Table.mem_select.mp (List.mem_of_mem_head? found)).2
        have alive : prior.state ≠ .retired := by
          rw [row] at live
          exact live
        have leads (same : s.name = n) : (id, s) = (result.scheduleId, prior) :=
          Option.some.inj ((same ▸ ok.byName there).symm.trans found)
        refine ⟨⟨fun same => congrArg Prod.fst (leads same), fun same => ?_⟩, fun same => ?_⟩
        · rw [same, scheduleByName_eq_some found] at there
          cases there
          exact named
        · cases leads same
          exact alive

end Wrappers

/-- A call is truthful exactly when a row that it agrees with is live and has its derived columns on
record. -/
theorem writes_truthful {site : Site} {allowed : System → Env → Command → Prop} {s : System} {env : Env}
    (reachable : System.Reachable site allowed s) (reads : ReadsBool env) (c : PutCall) :
    c.Truthful env s.db ↔ c.Plain env s.db := by
  have ok := reachable.timetabled
  have byName {n : String} {id : Uuid} {r : Schedule} (found : scheduleByName s.db n = some (id, r)) :
      r.name = n := of_decide_eq_true (Table.mem_select.mp (List.mem_of_mem_head? found)).2
  constructor
  · intro truthful id r d found valid agrees
    obtain ⟨n, named, found⟩ := Option.bind_eq_some_iff.mp found
    obtain ⟨answer, r', run, own, -, plain, -⟩ := PutCall.run_agrees reads ok named found valid agrees
    obtain ⟨final, -, kept⟩ := truthful _ _ run
    refine ⟨fun retired => ?_, fun absent => ?_⟩
    · refine (final id r (scheduleByName_eq_some found) retired).2 ?_
      rw [named, byName found]
    · have same := kept (plain absent).1
      rw [own, scheduleByName_eq_some found] at same
      have row : r' = r := Option.some.inj ((Table.get?_put_self _ _ _).symm.trans same)
      exact (plain absent).2.mp row
  · intro plain answer db' run
    obtain ⟨n, d, named, valid, ends⟩ := PutCall.run_ends ok run
    obtain ⟨id, r, found, agrees⟩ | ⟨r, stored, name, requested, state, changed, frame, live⟩ := ends
    · have alive := plain id r d (by rw [named]; exact found) valid agrees
      obtain ⟨_, r', run', own, marks, unrecorded, managed⟩ := PutCall.run_agrees reads ok named found valid agrees
      cases run.symm.trans run'
      have apart {other : Uuid} (ne : other ≠ id) :
          (s.db.putSchedule id r').scheduling.schedules.get? other = s.db.scheduling.schedules.get? other :=
        Table.get?_put_of_ne _ _ ne
      refine ⟨fun id' old stored retired => ?_, ⟨d, r', valid.parse, own ▸ Table.get?_put_self _ _ _, ?_, ?_, ?_⟩,
        fun unchanged => ?_⟩
      · by_cases same : id' = id
        · rw [same, scheduleByName_eq_some found] at stored
          cases stored
          exact absurd retired alive.1
        · refine ⟨(apart same).trans stored, fun given => same ?_⟩
          rw [named, Option.some.injEq] at given
          exact ok.names _ _ _ _ stored (scheduleByName_eq_some found) (by rw [← given, byName found])
      · rw [named, marks.name, byName found]
      · rw [marks.sameAs]
        exact agrees.2.1
      · rw [marks.state]
        exact agrees.state alive.1
      · have kept : r' = r := by
          cases given : c.metadata with
          | none => exact (unrecorded given).2.mpr (alive.2 given)
          | some m => exact managed (by simp [given]) unchanged
        rw [own, kept, scheduleByName_eq_some found]
        exact Table.get?_put_self _ _ _
    · refine ⟨fun id old there retired => ?_, ⟨d, r, valid.parse, stored, by rw [named, name], requested, state⟩,
        fun unchanged => absurd unchanged changed⟩
      obtain ⟨own, alive⟩ := live id old there
      have other : old.name ≠ n := fun same => alive same retired
      refine ⟨(frame id fun same => other (own.mpr same)).trans there, fun given => other ?_⟩
      rw [named, Option.some.injEq] at given
      exact given.symm

/-- A server that reads decimal digits and the two booleans. -/
def Site.reading : Site :=
  { Site.digits with parseBool := fun s =>
      if s = "true" then some true else if s = "false" then some false else none }

/-- The definition of `oneSchedule` once more, without a version. -/
def putAgain : PutCall := ⟨some "s", everyMinute, some "a", none, none⟩

/-- A repeated call on a live schedule is truthful. -/
theorem writes_truthful_again : ∃ s : System,
    (scheduleByName s.db "s").isSome = true ∧ putAgain.Truthful (.alone .reading 0 9) s.db := by
  have played : System.plays .reading oneSchedule (.installed .reading 0) (fun s =>
      (scheduleByName s.db "s").any fun e => e.2.state ≠ .retired && e.2.manifestKey ≠ "legacy" &&
        e.2.displayName ≠ "legacy" &&
        e.2.definitionHash = definitionHash (.alone .reading 0 9) e.2.toScheduleRow) = true := by decide +kernel
  obtain ⟨s, run, there⟩ := System.plays_run anyCall played fun _ _ _ => trivial
  obtain ⟨⟨id, r⟩, found, there⟩ := (Option.any_eq_true _ _).mp there
  simp only [Bool.and_eq_true, decide_eq_true_eq] at there
  obtain ⟨⟨⟨live, key⟩, display⟩, hash⟩ := there
  refine ⟨s, by rw [found]; rfl, (writes_truthful ⟨0, run⟩ ⟨rfl, rfl⟩ putAgain).mpr fun id' r' d found' _ _ => ?_⟩
  cases (show scheduleByName s.db "s" = some (id', r') from found').symm.trans found
  exact ⟨live, fun _ => ⟨hash, fun placeholder => absurd placeholder key, fun placeholder => absurd placeholder display⟩⟩

/-- A repeated call on a retired schedule is answered with `unchanged`. -/
theorem writes_truthful_retired : ∃ (s : System) (answer : WriteResult) (db' : Db),
    System.Reachable .reading anyCall s ∧ putAgain.run (.alone .reading 0 9) s.db = .ok (answer, db') ∧
    answer.outcome = .unchanged ∧ answer.state = .retired ∧
    ¬putAgain.Truthful (.alone .reading 0 9) s.db := by
  have played : System.plays .reading (oneSchedule ++ [(0, .retireSchedule "s" (some 1) (some "a"))])
      (.installed .reading 0) (fun s => (putAgain.run (.alone .reading 0 9) s.db).toOption.any (fun a =>
        a.1.outcome = .unchanged && a.1.state = .retired) &&
        (scheduleByName s.db "s").any fun e => e.2.state = .retired && e.2.name = "s") = true := by decide +kernel
  obtain ⟨s, run, there⟩ := System.plays_run anyCall played fun _ _ _ => trivial
  obtain ⟨ends, there⟩ := Bool.and_eq_true _ _ |>.mp there
  obtain ⟨⟨answer, db'⟩, call, ends⟩ := (Option.any_eq_true _ _).mp ends
  obtain ⟨⟨id, r⟩, found, there⟩ := (Option.any_eq_true _ _).mp there
  simp only [Bool.and_eq_true, decide_eq_true_eq] at ends there
  replace call := toOption_eq_some.mp call
  refine ⟨s, answer, db', ⟨0, run⟩, call, ends.1, ends.2, fun truthful => ?_⟩
  exact ((truthful answer db' call).1 id r (scheduleByName_eq_some found) there.1).2 (by rw [there.2]; rfl)

end Taskq
