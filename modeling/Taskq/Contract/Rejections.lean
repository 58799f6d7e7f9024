import Taskq.Invariants.Cursors
import Taskq.Contract.Definitions
import Taskq.Contract.CronLanguages

/-! The rejections of `put_schedule`: the errors that it raises by itself, and the documents that reach a cast or a
constraint of the database instead. -/
namespace Taskq
open Relational

/-- The two states in which `put_schedule` rejects a document. -/
def SqlError.Typed (e : SqlError) : Prop := e.state = .tq422 ∨ e.state = .tq001

variable {C : Prop}

/-- An error that `put_schedule` does not raise by itself: neither the rejection of a document nor, where there can be
one, a conflict with the stored schedule. -/
def SqlError.Raw (conflicting : Prop) (e : SqlError) : Prop := ¬e.Typed ∧ ¬(e.state = .tq409 ∧ conflicting)

@[simp] theorem tq422_raw (message : String) : ¬(tq422 message).Raw C := fun raw => raw.1 (.inl rfl)

section Lists

variable {α β : Type} {Good Bad : α → Prop} {l l' : List α}

/-- A loop gets to a bad element: those before it are good. -/
def Reaches (Good Bad : α → Prop) (l : List α) : Prop :=
  ∃ before a after, l = before ++ a :: after ∧ (∀ b ∈ before, Good b) ∧ Bad a

theorem not_reaches_nil : ¬Reaches Good Bad [] := by
  rintro ⟨before, a, after, same, -⟩
  cases before <;> cases same

theorem reaches_cons {a : α} : Reaches Good Bad (a :: l) ↔ Bad a ∨ Good a ∧ Reaches Good Bad l := by
  constructor
  · rintro ⟨before, b, after, same, good, bad⟩
    cases before with
    | nil =>
      cases same
      exact .inl bad
    | cons c before =>
      cases same
      exact .inr ⟨good _ List.mem_cons_self, before, b, after, rfl, fun c here => good c (List.mem_cons_of_mem _ here), bad⟩
  · rintro (bad | ⟨good, before, b, after, rfl, fine, bad⟩)
    · exact ⟨[], a, l, rfl, fun _ => nofun, bad⟩
    · exact ⟨a :: before, b, after, rfl, List.forall_mem_cons.mpr ⟨good, fine⟩, bad⟩

theorem reaches_append : Reaches Good Bad (l ++ l') ↔
    Reaches Good Bad l ∨ (∀ a ∈ l, Good a) ∧ Reaches Good Bad l' := by
  induction l with
  | nil => simp [not_reaches_nil]
  | cons a l ih =>
    rw [List.cons_append, reaches_cons, ih, reaches_cons, List.forall_mem_cons]
    tauto

theorem reaches_map {f : β → α} {l : List β} :
    Reaches Good Bad (l.map f) ↔ Reaches (fun b => Good (f b)) (fun b => Bad (f b)) l := by
  induction l with
  | nil => exact iff_of_false not_reaches_nil not_reaches_nil
  | cons b l ih => rw [List.map_cons, reaches_cons, reaches_cons, ih]

end Lists

section Cron

variable {low high : ℤ} {item : List Char} {e : String}

/-- A value that no `integer` holds. -/
def Oversized (digits : List Char) : Prop := 2147483647 < digitsValue digits

/-- The pattern that the database has for an item. -/
def CronToken (item : List Char) : Prop :=
  ((item.splitOn '/').headD [] = ['*'] ∨ ((((item.splitOn '/').headD []).splitOn '-').length ≤ 2 ∧
    ∀ n ∈ ((item.splitOn '/').headD []).splitOn '-', isDigits n = true)) ∧
  (itemSteps item).length ≤ 1 ∧ ∀ step ∈ itemSteps item, isDigits step = true

/-- An item of the pattern whose step is too large for an `integer`, or whose step is positive and whose base has a number
that is too large. -/
def ItemOverflows (item : List Char) : Prop :=
  CronToken item ∧ ((∃ step ∈ itemSteps item, Oversized step) ∨
    (∀ step ∈ itemSteps item, 0 < digitsValue step) ∧ (item.splitOn '/').headD [] ≠ ['*'] ∧
      ∃ n ∈ ((item.splitOn '/').headD []).splitOn '-', Oversized n)

theorem digitsValue_nonneg (digits : List Char) : 0 ≤ digitsValue digits := by
  have grows (digits : List Char) (n : ℤ) (start : 0 ≤ n) :
      0 ≤ digits.foldl (fun (n : ℤ) c => n * 10 + (c.toNat - '0'.toNat : ℕ)) n := by
    induction digits generalizing n with
    | nil => exact start
    | cons c digits ih => exact ih _ (by positivity)
  exact grows digits 0 le_rfl

theorem int4_raises {n : ℤ} (nonneg : 0 ≤ n) : Raises (SqlError.Raw C) (int4 n) ↔ 2147483647 < n := by
  unfold int4
  split_ifs with fits
  · exact iff_of_false raises_ok (by omega)
  · refine iff_of_true (raises_error.mpr ⟨?_, nofun⟩) (by omega)
    rintro (state | state) <;> cases state

theorem checkCronRange_raises {base : List Char} (few : (base.splitOn '-').length ≤ 2) :
    Raises (SqlError.Raw C) (checkCronRange low high base) ↔ ∃ n ∈ base.splitOn '-', Oversized n := by
  have ends : (∃ n ∈ base.splitOn '-', Oversized n) ↔
      2147483647 < digitsValue ((base.splitOn '-').headD []) ∨ 2147483647 < digitsValue ((base.splitOn '-').getLastD []) := by
    have all := forall_mem_iff_ends (splitOn_ne_nil '-' base) few (P := fun n => ¬Oversized n)
    have both := not_congr all
    push Not at both
    exact both.trans or_iff_not_imp_left.symm
  have first := digitsValue_nonneg ((base.splitOn '-').headD [])
  have last := digitsValue_nonneg ((base.splitOn '-').getLastD [])
  simp only [checkCronRange, raises_seq, raises_ensure, digitsValue_headD, digitsValue_getLastD, int4_raises first,
    int4_raises last, int4_eq_ok, cronError, tq422_raw, and_false, ends]
  constructor
  · rintro (big | ⟨_, _, big | ⟨_, _, none⟩⟩)
    · exact .inl big
    · exact .inr big
  · intro big
    by_cases start : 2147483647 < digitsValue ((base.splitOn '-').headD [])
    · exact .inl start
    · exact .inr ⟨_, ⟨⟨by omega, not_lt.mp start⟩, rfl⟩, .inl (big.resolve_left start)⟩

theorem itemStep_raises {tail : List (List Char)} (few : tail.length ≤ 1) :
    Raises (SqlError.Raw C) (int4 ((tail.head?.map digitsValue).getD 1)) ↔ ∃ step ∈ tail, Oversized step := by
  match tail, few with
  | [], _ => simp [int4_raises]
  | [step], _ => simp [int4_raises (digitsValue_nonneg step), Oversized]

theorem checkCronItem_raises : Raises (SqlError.Raw C) (checkCronItem low high item) ↔ ItemOverflows item := by
  unfold checkCronItem ItemOverflows CronToken itemSteps
  simp only [raises_seq, raises_ensure, ensure_eq_ok, tq422_raw, and_false, false_or, List.all_eq_true]
  generalize item.splitOn '/' = parts
  generalize parts.headD [] = base
  have few : parts.length ≤ 2 ↔ parts.tail.length ≤ 1 := by rw [List.length_tail]; omega
  rw [few, exists_const]
  refine and_congr_right fun passed => ?_
  obtain ⟨shape, few, -⟩ := passed
  rw [itemStep_raises few]
  refine or_congr_right' fun fits => ?_
  have fits (step : List Char) (here : step ∈ parts.tail) : digitsValue step ≤ 2147483647 :=
    not_lt.mp fun big => fits ⟨step, here, big⟩
  have positive (n : ℤ) := castStep_eq_ok few (n := n)
  simp only [exists_const, ← and_assoc, positive]
  constructor
  · rintro ⟨_, ⟨-, steps⟩, raises⟩
    split_ifs at raises with star
    · exact (raises_ok raises).elim
    · exact ⟨⟨fun step here => (steps step here).1, star⟩, (checkCronRange_raises (shape.resolve_left star).1).mp raises⟩
  · rintro ⟨⟨steps, star⟩, big⟩
    refine ⟨_, ⟨rfl, fun step here => ⟨steps step here, fits step here⟩⟩, ?_⟩
    rw [if_neg star]
    exact (checkCronRange_raises (shape.resolve_left star).1).mpr big

theorem checkCronItems_raises {items : List (List Char)} : Raises (SqlError.Raw C) (checkCronItems low high items) ↔
    Reaches (fun item => checkCronItem low high item = .ok ()) ItemOverflows items := by
  induction items with
  | nil => exact iff_of_false raises_ok not_reaches_nil
  | cons item items ih =>
    rw [checkCronItems, raises_seq, checkCronItem_raises, reaches_cons, ih]
    simp only [Unique.exists_iff, PUnit.default_eq_unit]

/-- Nothing is no item. -/
theorem not_cronToken_nil : ¬CronToken [] := by
  rintro ⟨star | ⟨-, digits⟩, -⟩
  · cases star
  · exact absurd (digits [] (by decide)) (by decide)

theorem CronItem.token (good : CronItem low high item) : CronToken item :=
  ⟨good.1.imp_right And.left, good.2.1, fun step here => (good.2.2 step here).1⟩

/-- The items of fields, each with the bounds of its own. -/
def fieldItems (fields : List (String × ℤ × ℤ)) : List ((ℤ × ℤ) × List Char) :=
  fields.flatMap fun field => (field.1.toList.splitOn ',').map fun item => (field.2, item)

/-- An item that the database takes. -/
def ItemFits (i : (ℤ × ℤ) × List Char) : Prop :=
  CronItem i.1.1 i.1.2 i.2 ∧ ∀ step ∈ itemSteps i.2, digitsValue step ≤ 2147483647

theorem checkCronFields_raises {fields : List (String × ℤ × ℤ)} (bounds : ∀ field ∈ fields, field.2 ∈ cronBounds) :
    Raises (SqlError.Raw C) (checkCronFields fields) ↔ Reaches ItemFits (fun i => ItemOverflows i.2) (fieldItems fields) := by
  induction fields with
  | nil => exact iff_of_false raises_ok not_reaches_nil
  | cons field fields ih =>
    obtain ⟨word, low, high⟩ := field
    obtain ⟨first, rest⟩ := List.forall_mem_cons.mp bounds
    obtain ⟨low_nonneg, high_fits⟩ : 0 ≤ low ∧ high ≤ 2147483647 :=
      (show ∀ b ∈ cronBounds, 0 ≤ b.1 ∧ b.2 ≤ 2147483647 by decide) _ first
    have fits (item : List Char) : checkCronItem low high item = .ok () ↔ ItemFits ((low, high), item) :=
      checkCronItem_eq_ok low_nonneg high_fits
    rw [checkCronFields, raises_seq, raises_ensure, fieldItems, List.flatMap_cons, reaches_append, reaches_map,
      ← fieldItems, ← ih rest, List.forall_mem_map]
    simp only [raises_seq, ensure_eq_ok, checkCronItems_raises, checkCronItems_eq_ok, fits, tq422_raw, and_false, false_or,
      Unique.exists_iff, PUnit.default_eq_unit]
    refine and_iff_right_of_imp fun reaches empty => ?_
    rw [empty, show "".toList.splitOn ',' = [[]] from rfl, reaches_cons, List.forall_mem_singleton] at reaches
    obtain (bad | ⟨-, never⟩) | ⟨good, -⟩ := reaches
    · exact not_cronToken_nil bad.1
    · exact not_reaches_nil never
    · exact not_cronToken_nil good.1.token

end Cron

section Documents

variable {env : Env} {db : Db} {definition recurrence target : Jsonb}

/-- The fields of an expression, as the database separates them, with their bounds. -/
def cronFields (site : Site) (e : String) : List (String × ℤ × ℤ) := (splitBlanks site [] (trimSpaces e) false).zip cronBounds

/-- A cron recurrence of five fields whose items are read up to one that overflows. -/
structure RecurrenceOverflows (env : Env) (recurrence : Jsonb) : Prop where
  shape : recurrence.kind = .object ∧ recurrence.hasKey "kind" = true
  cron : recurrence.fieldText? "kind" = some "cron"
  keys : hasKeys recurrence ["expression", "timezone"] = true ∧ onlyKeys recurrence ["kind", "expression", "timezone"] = true
  texts : keyBytesOk ((recurrence.fieldText? "expression").getD "") = true ∧
    keyBytesOk ((recurrence.fieldText? "timezone").getD "") = true
  zone : env.knownTimezone ((recurrence.fieldText? "timezone").getD "") = true
  five : (splitBlanks env.toSite [] (trimSpaces ((recurrence.fieldText? "expression").getD "")) false).length = 5
  items : Reaches ItemFits (fun i => ItemOverflows i.2)
    (fieldItems (cronFields env.toSite ((recurrence.fieldText? "expression").getD "")))

theorem normalizeRecurrence_raises :
    Raises (SqlError.Raw C) (normalizeRecurrence env recurrence) ↔ RecurrenceOverflows env recurrence := by
  unfold normalizeRecurrence
  simp only [raises_seq, raises_ensure, ensure_eq_ok, tq422_raw, and_false, false_or]
  split_ifs with interval cron
  · refine iff_of_false ?_ fun bad => ?_
    · simp only [raises_seq, raises_ensure, raises_mapError, raises_ok, tq422_raw, and_false, exists_false, or_false,
        not_false_eq_true]
    · exact absurd (interval.symm.trans bad.cron) (by decide)
  · simp only [raises_seq, raises_ensure, ensure_eq_ok, tq422_raw, and_false, false_or, raises_ok, or_false,
      Unique.exists_iff]
    rw [checkCronFields_raises fun field here => (List.of_mem_zip here).2]
    constructor
    · rintro ⟨shape, keys, ⟨written, short, named, brief, zone⟩, five, items⟩
      exact ⟨shape, cron, keys, by simp [keyBytesOk, *], zone, five, items⟩
    · rintro ⟨shape, -, keys, texts, zone, five, items⟩
      simp only [keyBytesOk, decide_eq_true_eq, Bool.and_eq_true] at texts
      exact ⟨shape, keys, ⟨texts.1.1, texts.1.2, texts.2.1, texts.2.2, zone⟩, five, items⟩
  · simp only [raises_error, tq422_raw, and_false, exists_false, false_iff]
    exact fun bad => cron bad.cron

theorem checkTargetInt_typed {key : String} {low high : ℤ} : ¬Raises (SqlError.Raw C) (checkTargetInt env target key low high) := by
  unfold checkTargetInt
  split <;> simp

theorem normalizeTarget_typed : ¬Raises (SqlError.Raw C) (normalizeTarget env target db) := by
  have unknown : ¬noSuchQueue.Raw C := fun raw => raw.1 (.inr rfl)
  unfold normalizeTarget
  simp [checkTargetInt_typed, checkTargetText, unknown]

/-- The keys and the target of a definition, which are checked first. -/
structure Aimed (env : Env) (definition : Jsonb) (db : Db) : Prop where
  keys : definition.kind = .object ∧ hasKeys definition ["target", "recurrence", "catchup_policy", "max_catchup"] = true ∧
    onlyKeys definition ["target", "recurrence", "catchup_policy", "max_catchup", "paused"] = true
  target : ∃ target, normalizeTarget env ((definition.field? "target").getD .null) db = .ok target

/-- The settings that are checked after the recurrence, the catch-up policy apart. -/
structure Settled (env : Env) (definition : Jsonb) : Prop where
  number : (definition.field? "max_catchup").any (·.kind = .number) = true
  limit : ∃ n, castInt env definition "max_catchup" = .ok (some n) ∧ 1 ≤ n ∧ n ≤ 100
  paused : (definition.field? "paused").all (·.kind = .boolean) = true

/-- The recurrence of a definition. -/
def recurrenceOf (definition : Jsonb) : Jsonb := (definition.field? "recurrence").getD .null

theorem parseDefinition_raises : Raises (SqlError.Raw C) (parseDefinition env definition db) ↔
    Aimed env definition db ∧ RecurrenceOverflows env (recurrenceOf definition) := by
  unfold parseDefinition
  simp only [raises_seq, raises_ensure, raises_mapError, ensure_eq_ok, tq422_raw, and_false, false_or, raises_ok,
    normalizeTarget_typed, normalizeRecurrence_raises, exists_false, or_false, Unique.exists_iff]
  constructor
  · rintro ⟨keys, target, ok, bad⟩
    exact ⟨⟨keys, target, ok⟩, bad⟩
  · rintro ⟨⟨keys, target, ok⟩, bad⟩
    exact ⟨keys, target, ok, bad⟩

/-- The definitions that pass the checks without a catch-up policy. -/
theorem parseDefinition_policyless : (∃ d, parseDefinition env definition db = .ok d ∧ d.catchupPolicy = none) ↔
    Aimed env definition db ∧ TakesRecurrence env (recurrenceOf definition) ∧ Settled env definition ∧
      definition.fieldText? "catchup_policy" = none := by
  simp only [parseDefinition, seq_eq_ok, ensure_eq_ok, mapError_eq_ok, exists_const, Except.ok.injEq]
  constructor
  · rintro ⟨_, ⟨keys, target, ok, recurrence, takes, policies, number, limit, cast, bounds, paused, rfl⟩, none⟩
    obtain ⟨n, rfl, bounds⟩ := (Option.any_eq_true _ _).mp bounds
    refine ⟨⟨keys, target, ok⟩, ⟨recurrence, takes⟩, ⟨number, ⟨n, cast, of_decide_eq_true bounds⟩, paused⟩, ?_⟩
    cases given : definition.fieldText? "catchup_policy" with
    | none => rfl
    | some text =>
      rw [given] at policies none
      exact absurd none (Option.ne_none_iff_isSome.mpr policies)
  · rintro ⟨⟨keys, target, ok⟩, ⟨recurrence, takes⟩, ⟨number, ⟨n, cast, bounds⟩, paused⟩, none⟩
    refine ⟨_, ⟨keys, target, ok, recurrence, takes, ?_, number, some n, cast, decide_eq_true bounds, paused, rfl⟩, ?_⟩
    · rw [none]
      rfl
    · rw [none]
      rfl

end Documents

section Calls

variable {env : Env} {db : Db} {definition : Jsonb} {name actor : Option String} {expected : Option ℤ}

/-- A call that passes its checks comes to write the definition: the name is free and no version is expected, or it has a
live job schedule of the version that is. -/
def Writes (db : Db) (name : Option String) (expected : Option ℤ) : Prop :=
  match name.bind (scheduleByName db) with
  | none => expected = none
  | some (_, s) => s.target.fieldText? "kind" = some "job" ∧ expected = some s.version ∧ s.state ≠ .retired

/-- The checks before the recurrence pass. -/
structure Opens (env : Env) (name : Option String) (definition : Jsonb) (actor : Option String) (expected : Option ℤ)
    (db : Db) : Prop where
  name : name.any (fun n => isScheduleName n ∧ n ≠ janitorName) = true
  actor : actorOk actor = true
  expected : expected.all (0 < ·) = true
  aimed : Aimed env definition db

/-- A definition without a policy comes to the write of its row. -/
structure Policyless (env : Env) (name : Option String) (definition : Jsonb) (expected : Option ℤ) (db : Db) : Prop where
  recurrence : TakesRecurrence env (recurrenceOf definition)
  settled : Settled env definition
  policy : definition.fieldText? "catchup_policy" = none
  writes : Writes db name expected

theorem conflict_raw (conflicting : C) (message reason : String) (version : ℤ) :
    ¬(scheduleConflict message reason version).Raw C := fun raw => raw.2 ⟨rfl, conflicting⟩

theorem storeSchedule_typed {r : ScheduleRow} (fine : r.checksOk = true) : ¬Raises (SqlError.Raw C) (storeSchedule r) := by
  unfold storeSchedule
  rw [dif_pos fine]
  exact raises_ok

theorem writeSchedule_typed {id : Uuid} {r : ScheduleRow} (fine : r.checksOk = true) :
    ¬Raises (SqlError.Raw C) (writeSchedule id r db) := by
  simp [writeSchedule, storeSchedule_typed fine]

theorem checkPolicy_raises {d : Definition} : Raises (SqlError.Raw C) d.checkPolicy ↔ d.catchupPolicy = none := by
  have raw : (SqlError.mk' .notNullViolation "catchup_policy").Raw C := by
    refine ⟨?_, nofun⟩
    rintro (state | state) <;> cases state
  simp [Definition.checkPolicy, raw]

/-- A definition that passes its checks meets the constraint on its policy when it is written, and nothing else. -/
theorem putScheduleUnattested_parsed {n : String} {d : Definition} (fresh : scheduleById db db.nextUuid = none)
    (valid : (some n).any (fun n => isScheduleName n ∧ n ≠ janitorName) = true) (signed : actorOk actor = true)
    (positive : expected.all (0 < ·) = true) (parse : parseDefinition env definition db = .ok d)
    (audits : ∀ id s, scheduleByName db n = some (id, s) → d.paused = false → s.pausedAudit = none)
    (conflicting : (scheduleByName db n).isSome → C) :
    Raises (SqlError.Raw C) (putScheduleUnattested env (some n) definition actor expected db) ↔
      d.catchupPolicy = none ∧ Writes db (some n) expected := by
  have unknown : ¬noSuchSchedule.Raw C := fun raw => raw.1 (.inr rfl)
  unfold putScheduleUnattested Writes
  simp only [raises_seq, raises_ensure, ensure_eq_ok, valid, signed, positive, not_true_eq_false, false_and, false_or, parse,
    raises_ok, Except.ok.injEq, exists_eq_left', true_and, exists_const, Option.getD_some, Option.bind_some]
  cases found : scheduleByName db n with
  | none =>
    have fresh : scheduleById (newUuid db).2 (newUuid db).1 = none := fresh
    have written : ¬Raises (SqlError.Raw C) (writeSchedule (newUuid db).1
        (scheduleAdmissionOwner (newSchedule env n d (actor.getD "")) (newUuid db).2) (newUuid db).2) :=
      writeSchedule_typed (newSchedule_checks parse env _ _)
    simp only [raises_seq, raises_ensure, unknown, and_false, false_or, ensure_eq_ok, checkPolicy_raises, fresh, written,
      Option.isNone_none, not_true_eq_false, false_and, raises_ok, exists_false, or_false, exists_const, Option.isNone_iff_eq_none]
    exact and_comm
  | some e =>
    obtain ⟨id, s⟩ := e
    have conflict (message reason : String) (version : ℤ) : ¬(scheduleConflict message reason version).Raw C :=
      conflict_raw (conflicting (by rw [found]; rfl)) _ _ _
    simp only [raises_seq, raises_ensure, tq422_raw, and_false, false_or, ensure_eq_ok]
    cases expected with
    | none => simp [conflict]
    | some version =>
      have written (current : s.state ≠ .retired) : ¬Raises (SqlError.Raw C) (writeSchedule id
          (scheduleAdmissionOwner (redefined env s.toScheduleRow d (actor.getD "")) db) db) :=
        writeSchedule_typed (redefined_checks parse current (audits id s found) _)
      have apart (none : d.catchupPolicy = none) : ¬(d.sameAs s.toScheduleRow = true ∧ s.state = d.state) :=
        fun same => by simp [Definition.sameAs, none] at same
      simp only [raises_seq, raises_ensure, ensure_eq_ok, conflict, and_false, false_or]
      constructor
      · rintro ⟨_, job, _, rfl, _, live, raises⟩
        split_ifs at raises with same
        · exact (raises_ok raises).elim
        · simp only [raises_seq, checkPolicy_raises, written live, raises_ok, exists_false, or_false, and_false] at raises
          exact ⟨raises, job, rfl, live⟩
      · rintro ⟨none, job, current, live⟩
        refine ⟨(), job, (), Option.some.inj current, (), live, ?_⟩
        rw [if_neg (apart none), raises_seq]
        exact .inl (checkPolicy_raises.mpr none)

/-- The definition is accepted, and a schedule has the name already. -/
def Occupied (env : Env) (name : Option String) (definition : Jsonb) (db : Db) : Prop :=
  (∃ d, parseDefinition env definition db = .ok d) ∧ (name.bind (scheduleByName db)).isSome = true

theorem putScheduleUnattested_raises (fresh : scheduleById db db.nextUuid = none)
    (audits : ∀ d id s, parseDefinition env definition db = .ok d → name.bind (scheduleByName db) = some (id, s) →
      d.paused = false → s.pausedAudit = none)
    (conflicting : Occupied env name definition db → C) :
    Raises (SqlError.Raw C) (putScheduleUnattested env name definition actor expected db) ↔
      Opens env name definition actor expected db ∧
        (RecurrenceOverflows env (recurrenceOf definition) ∨ Policyless env name definition expected db) := by
  by_cases checked : name.any (fun n => isScheduleName n ∧ n ≠ janitorName) = true ∧ actorOk actor = true ∧
    expected.all (0 < ·) = true
  · obtain ⟨valid, signed, positive⟩ := checked
    obtain ⟨n, rfl, -⟩ := (Option.any_eq_true _ _).mp valid
    have opens : Opens env (some n) definition actor expected db ↔ Aimed env definition db :=
      ⟨Opens.aimed, fun aimed => ⟨valid, signed, positive, aimed⟩⟩
    have unparsed : Raises (SqlError.Raw C) (parseDefinition env definition db) ↔ _ := parseDefinition_raises
    have policyless : (∃ d, parseDefinition env definition db = .ok d ∧ d.catchupPolicy = none) ↔ _ :=
      parseDefinition_policyless
    rw [opens]
    cases parse : parseDefinition env definition db with
    | error e =>
      rw [parse] at unparsed policyless
      rw [raises_error] at unparsed
      have same : putScheduleUnattested env (some n) definition actor expected db = .error e := by
        simp only [putScheduleUnattested, ensure, valid, signed, positive, if_true, parse, bind, Except.bind]
      rw [same, raises_error, unparsed]
      refine and_congr_right fun aimed => (or_iff_left fun bad => ?_).symm
      obtain ⟨_, absent, -⟩ := policyless.mpr ⟨aimed, bad.recurrence, bad.settled, bad.policy⟩
      cases absent
    | ok d =>
      rw [parse] at unparsed policyless
      rw [putScheduleUnattested_parsed fresh valid signed positive parse (fun id s => audits d id s parse)
        fun stored => conflicting ⟨⟨d, parse⟩, stored⟩]
      constructor
      · rintro ⟨none, writes⟩
        obtain ⟨aimed, recurrence, settled, policy⟩ := policyless.mp ⟨d, rfl, none⟩
        exact ⟨aimed, .inr ⟨recurrence, settled, policy, writes⟩⟩
      · rintro ⟨aimed, bad | bad⟩
        · exact (raises_ok (unparsed.mpr ⟨aimed, bad⟩)).elim
        · obtain ⟨_, same, none⟩ := policyless.mpr ⟨aimed, bad.recurrence, bad.settled, bad.policy⟩
          cases same
          exact ⟨none, bad.writes⟩
  · refine iff_of_false ?_ fun bad => checked ⟨bad.1.name, bad.1.actor, bad.1.expected⟩
    simp only [putScheduleUnattested, raises_seq, raises_ensure, ensure_eq_ok, tq422_raw, and_false, false_or]
    rintro ⟨_, valid, _, signed, _, positive, -⟩
    exact checked ⟨valid, signed, positive⟩

/-- The marks of the wrapper leave a row that satisfies its constraints. -/
theorem marked_checks (s : Schedule) (key display hash : String) (updated : Prop) [Decidable updated] :
    ({ s.toScheduleRow with
      manifestKey := key, displayName := display, definitionHash := hash
      consecutiveDefinitionErrors := if updated then 0 else s.consecutiveDefinitionErrors
      pausedAudit := if updated then none else s.pausedAudit } : ScheduleRow).checksOk = true := by
  have checks := s.checks
  split_ifs
  · simp only [ScheduleRow.checksOk, Bool.and_eq_true] at checks ⊢
    exact ⟨⟨⟨checks.1.1.1, rfl⟩, rfl⟩, rfl⟩
  · exact checks

theorem unaudited_checks (s : Schedule) : ({ s.toScheduleRow with pausedAudit := none } : ScheduleRow).checksOk = true := by
  have checks := s.checks
  simp only [ScheduleRow.checksOk, Bool.and_eq_true] at checks ⊢
  exact ⟨checks.1, rfl⟩

/-- The text of the pause switch is no boolean. -/
def Uncastable (env : Env) (definition : Jsonb) : Prop :=
  ∃ text, definition.fieldText? "paused" = some text ∧ env.parseBool text = none

theorem wantsPaused_raises : Raises (SqlError.Raw C) (wantsPaused env definition) ↔ Uncastable env definition := by
  have raw (text : String) : (SqlError.mk' .invalidTextRepresentation text).Raw C := by
    refine ⟨?_, nofun⟩
    rintro (state | state) <;> cases state
  unfold wantsPaused castText Uncastable
  cases definition.fieldText? "paused" with
  | none => simp
  | some text => cases given : env.parseBool text <;> simp [given, raw]

/-- Clearing the audit reads the pause switch and writes a row that satisfies its constraints. -/
theorem clearAudit_raises : Raises (SqlError.Raw C) (clearAudit env name definition db) ↔ Uncastable env definition := by
  unfold clearAudit
  rw [raises_seq, wantsPaused_raises]
  refine or_iff_left ?_
  rintro ⟨paused, -, raises⟩
  split at raises
  · exact raises_ok raises
  · split_ifs at raises
    · exact raises_ok raises
    · exact writeSchedule_typed (unaudited_checks _) raises

variable {site : Site} {cleared : Db}

/-- After the audit is cleared the row of the name leads to the same decisions. -/
theorem clearAudit_leaves (ok : Timetabled site db.scheduling.schedules)
    (clear : clearAudit env name definition db = .ok cleared) :
    cleared.queues = db.queues ∧ (∀ expected, Writes cleared name expected ↔ Writes db name expected) ∧
      ((name.bind (scheduleByName cleared)).isSome = (name.bind (scheduleByName db)).isSome) ∧
      (scheduleById db db.nextUuid = none → scheduleById cleared cleared.nextUuid = none) := by
  obtain ⟨rfl, -⟩ | ⟨id, s, r, found, row, rfl, leads⟩ := clearAudit_ends ok clear
  · exact ⟨rfl, fun _ => .rfl, rfl, id⟩
  · refine ⟨rfl, fun expected => ?_, ?_, fun fresh => ?_⟩
    · unfold Writes
      rw [leads, found]
      simp only [row]
    · rw [leads, found]
      rfl
    · obtain ⟨n, -, found⟩ := Option.bind_eq_some_iff.mp found
      have apart : db.nextUuid ≠ id := fun same => by
        rw [same, scheduleById, scheduleByName_eq_some found] at fresh
        cases fresh
      exact (Table.get?_put_of_ne _ _ apart).trans fresh

/-- A schedule that is to run has no audit once it is cleared. -/
theorem clearAudit_unaudited (ok : Timetabled site db.scheduling.schedules)
    (clear : clearAudit env name definition db = .ok cleared) (runs : wantsPaused env definition = .ok false)
    {id : Uuid} {s : Schedule} (found : name.bind (scheduleByName cleared) = some (id, s)) : s.pausedAudit = none := by
  obtain ⟨rfl, pauses | unknown⟩ | ⟨id', s', r, -, row, rfl, leads⟩ := clearAudit_ends ok clear
  · cases runs.symm.trans pauses
  · cases unknown.symm.trans found
  · cases leads.symm.trans found
    rw [row]

theorem clearAudit_runs (safe : ¬Uncastable env definition) :
    ∃ cleared, clearAudit env name definition db = .ok cleared := by
  have wants : ∃ paused, wantsPaused env definition = .ok paused := by
    unfold wantsPaused castText
    cases given : definition.fieldText? "paused" with
    | none => exact ⟨_, rfl⟩
    | some text =>
      cases read : env.parseBool text with
      | none => exact absurd ⟨text, given, read⟩ safe
      | some paused => exact ⟨_, by simp only [read]; rfl⟩
  obtain ⟨paused, wants⟩ := wants
  simp only [clearAudit, wants, bind, Except.bind]
  split
  · exact ⟨_, rfl⟩
  · rename_i id s found
    split_ifs
    · exact ⟨_, rfl⟩
    · exact ⟨_, by simp only [writeSchedule, storeSchedule, dif_pos (unaudited_checks s)]; rfl⟩

/-- The calls whose documents `put_schedule` answers for by itself: the pause switch is a boolean where it is read, the
numbers of a cron recurrence fit where they are, and a policy is given where the row is written. -/
structure Presentable (env : Env) (name : Option String) (definition : Jsonb) (actor : Option String)
    (expected : Option ℤ) (db : Db) : Prop where
  pause : env.attested = true → reservedHeader definition = false → ¬Uncastable env definition
  numbers : env.attested = true → reservedHeader definition = false → Opens env name definition actor expected db →
    ¬RecurrenceOverflows env (recurrenceOf definition)
  policy : env.attested = true → reservedHeader definition = false → Opens env name definition actor expected db →
    ¬Policyless env name definition expected db

theorem putSchedule_raises (ok : Timetabled site db.scheduling.schedules) (reads : ReadsBool env)
    (fresh : scheduleById db db.nextUuid = none) (conflicting : Occupied env name definition db → C) :
    Raises (SqlError.Raw C) (putSchedule env name definition actor expected db) ↔
      ¬Presentable env name definition actor expected db := by
  have session : ¬attestationRequired.Raw C := fun raw => raw.1 (.inl rfl)
  have body (cleared : Db) (clear : clearAudit env name definition db = .ok cleared) :
      Raises (SqlError.Raw C) (putScheduleUnattested env name definition actor expected cleared) ↔
        Opens env name definition actor expected db ∧
          (RecurrenceOverflows env (recurrenceOf definition) ∨ Policyless env name definition expected db) := by
    obtain ⟨queues, writes, stored, unused⟩ := clearAudit_leaves ok clear
    have target (given : Jsonb) : normalizeTarget env given cleared = normalizeTarget env given db := by
      simp only [normalizeTarget, queues]
    have parse : parseDefinition env definition cleared = parseDefinition env definition db := by
      simp only [parseDefinition, target]
    have aimed : Aimed env definition cleared ↔ Aimed env definition db := by
      constructor
      · rintro ⟨keys, t, ok⟩
        exact ⟨keys, t, target _ ▸ ok⟩
      · rintro ⟨keys, t, ok⟩
        exact ⟨keys, t, (target _).trans ok⟩
    rw [putScheduleUnattested_raises (unused fresh) (fun d id s made found runs => ?_) fun occupied => conflicting ?_]
    · refine and_congr ?_ (or_congr_right ?_)
      · constructor
        · rintro ⟨valid, signed, positive, there⟩
          exact ⟨valid, signed, positive, aimed.mp there⟩
        · rintro ⟨valid, signed, positive, there⟩
          exact ⟨valid, signed, positive, aimed.mpr there⟩
      · constructor
        · rintro ⟨recurrence, settled, policy, there⟩
          exact ⟨recurrence, settled, policy, (writes expected).mp there⟩
        · rintro ⟨recurrence, settled, policy, there⟩
          exact ⟨recurrence, settled, policy, (writes expected).mpr there⟩
    · exact clearAudit_unaudited ok clear (runs ▸ wantsPaused_eq reads made) found
    · exact ⟨occupied.1.imp fun d made => parse ▸ made, stored ▸ occupied.2⟩
  simp only [putSchedule, raises_seq, raises_ensure, session, and_false, false_or, ensure_eq_ok, tq422_raw,
    clearAudit_raises, exists_const]
  constructor
  · rintro ⟨attested, header, bad | ⟨cleared, clear, raises | ⟨⟨result, put⟩, -, raises⟩⟩⟩ fine
    · exact fine.pause attested header bad
    · obtain ⟨opens, bad | bad⟩ := (body cleared clear).mp raises
      · exact fine.numbers attested header opens bad
      · exact fine.policy attested header opens bad
    · cases found : scheduleById put result.scheduleId with
      | none =>
        simp only [found] at raises
        exact raises_ok raises
      | some s =>
        simp only [found, raises_seq] at raises
        obtain raises | ⟨_, -, raises⟩ := raises
        · exact writeSchedule_typed (marked_checks s _ _ _ _) raises
        · exact raises_ok raises
  · intro bad
    by_contra quiet
    have safe (attested : env.attested = true) (header : reservedHeader definition = false)
        (bad : Uncastable env definition ∨ Opens env name definition actor expected db ∧
          (RecurrenceOverflows env (recurrenceOf definition) ∨ Policyless env name definition expected db)) : False := by
      by_cases cast : Uncastable env definition
      · exact quiet ⟨attested, header, .inl cast⟩
      · obtain ⟨cleared, clear⟩ : ∃ cleared, clearAudit env name definition db = .ok cleared := clearAudit_runs cast
        exact quiet ⟨attested, header, .inr ⟨cleared, clear, .inl ((body cleared clear).mpr (bad.resolve_left cast))⟩⟩
    exact bad ⟨fun attested header cast => safe attested header (.inl cast),
      fun attested header opens overflows => safe attested header (.inr ⟨opens, .inl overflows⟩),
      fun attested header opens policyless => safe attested header (.inr ⟨opens, .inr policyless⟩)⟩

end Calls

/-- The two parsers agree on an expression exactly when what each asks for besides the grammar comes to the same, and
`put_schedule` answers for every document by itself exactly when it is presentable. -/
theorem cron_languages {site : Site} {allowed : System → Env → Command → Prop} {s : System} {env : Env}
    (reachable : System.Reachable site allowed s) (reads : ReadsBool env) :
    (∀ (zoneInfo : String → Option ZoneInfo) (e timezone : String), Tidy env.toSite e → env.knownTimezone timezone = true →
      (zoneInfo timezone).isSome = true →
      ((TakesRecurrence env (cronRecurrence e timezone) ↔ validateCron zoneInfo e timezone = .ok ()) ↔
        (CronShaped env.toSite e → (Storable env.toSite e timezone ↔ Canonical env.toSite e)))) ∧
    ∀ (name : Option String) (definition : Jsonb) (actor : Option String) (expected : Option ℤ),
      (∀ e, putSchedule env name definition actor expected s.db = .error e →
        e.Typed ∨ e.state = .tq409 ∧ Occupied env name definition s.db) ↔
      Presentable env name definition actor expected s.db := by
  constructor
  · intro zoneInfo e timezone tidy known present
    rw [takesRecurrence_iff tidy known, validateCron_eq_ok, and_iff_left present]
    tauto
  · intro name definition actor expected
    have fresh : scheduleById s.db s.db.nextUuid = none := by
      cases there : scheduleById s.db s.db.nextUuid with
      | none => rfl
      | some r => exact absurd (reachable.scheduled there) (lt_irrefl _)
    have raises : Raises (SqlError.Raw (Occupied env name definition s.db))
        (putSchedule env name definition actor expected s.db) ↔ _ := putSchedule_raises reachable.timetabled reads fresh id
    rw [← not_iff_not, ← raises]
    simp only [Raises, SqlError.Raw, not_forall, not_or, exists_prop]

/-- A server that knows one zone. -/
def Site.zoned : Site := { Site.reading with knownTimezone := fun zone => zone = "UTC" }

/-- A definition of one job on a cron expression. -/
def cronDefinition (e : String) : Jsonb :=
  .build [("target", .build [("kind", .str "job"), ("queue", .str "q"), ("job_type", .str "t")]),
    ("recurrence", cronRecurrence e "UTC"), ("catchup_policy", .str "skip"), ("max_catchup", .ofInt 1)]

/-- The installation with one queue. -/
def oneQueue : List (Time × Command) := [(0, .ensureQueue (some "q") none)]

/-- Every five minutes: both take it, and the definition is presentable. -/
theorem cron_languages_five : ∃ s : System,
    (CronShaped .zoned "*/5 * * * *" → (Storable .zoned "*/5 * * * *" "UTC" ↔ Canonical .zoned "*/5 * * * *")) ∧
    Presentable (.alone .zoned 0 9) (some "s") (cronDefinition "*/5 * * * *") (some "a") none s.db := by
  have played : System.plays .zoned oneQueue (.installed .zoned 0) (fun s =>
      (putSchedule (.alone .zoned 0 9) (some "s") (cronDefinition "*/5 * * * *") (some "a") none s.db).toOption.isSome) =
      true := by decide +kernel
  obtain ⟨s, run, there⟩ := System.plays_run anyCall played fun _ _ _ => trivial
  obtain ⟨answer, put⟩ := Option.isSome_iff_exists.mp there
  have put := toOption_eq_some.mp put
  obtain ⟨agree, answers⟩ := cron_languages ⟨0, run⟩ (show ReadsBool (.alone .zoned 0 9) from ⟨rfl, rfl⟩)
  refine ⟨s, (agree (fun _ => some ⟨0, [], trivial⟩) _ _ (.inr (by decide)) rfl rfl).mp (iff_of_true ⟨_, rfl⟩ rfl),
    (answers _ _ _ _).mp fun e raised => ?_⟩
  cases put.symm.trans raised

/-- A zero-padded step is taken by the database alone, and a step that no `integer` holds by the evaluator alone: the cast
of the database fails on it. -/
theorem cron_languages_apart : ∃ s : System, System.Reachable .zoned anyCall s ∧
    (Tidy .zoned "*/05 * * * *" ∧ TakesRecurrence (.alone .zoned 0 9) (cronRecurrence "*/05 * * * *" "UTC") ∧
      validateCron (fun _ => some ⟨0, [], trivial⟩) "*/05 * * * *" "UTC" ≠ .ok ()) ∧
    (validateCron (fun _ => some ⟨0, [], trivial⟩) "*/99999999999 * * * *" "UTC" = .ok () ∧
      ∃ e, putSchedule (.alone .zoned 0 9) (some "s") (cronDefinition "*/99999999999 * * * *") (some "a") none s.db =
        .error e ∧ e.state = .numericValueOutOfRange) := by
  have played : System.plays .zoned oneQueue (.installed .zoned 0) (fun s =>
      match putSchedule (.alone .zoned 0 9) (some "s") (cronDefinition "*/99999999999 * * * *") (some "a") none s.db with
      | .ok _ => false
      | .error e => e.state = .numericValueOutOfRange) = true := by decide +kernel
  obtain ⟨s, run, there⟩ := System.plays_run anyCall played fun _ _ _ => trivial
  refine ⟨s, ⟨0, run⟩, ⟨.inr (by decide), ⟨_, rfl⟩, nofun⟩, rfl, ?_⟩
  split at there
  · cases there
  · rename_i e raised
    exact ⟨e, raised, of_decide_eq_true there⟩

end Taskq
