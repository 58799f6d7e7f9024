import Taskq.Lifecycle.Rows
import Taskq.Lifecycle.Statements

/-! What the row-level statements do to the job tables, and how they make up transitions. -/
namespace Taskq
open Relational

/-- The tables that no verb on jobs writes. -/
def Db.settings (db : Db) : ScheduleTables × Table String Queue × Table String ℤ × Table String FlowLimit ×
    Table Uuid Admission :=
  (db.scheduling, db.queues, db.concurrencyLimits, db.flowLimits, db.admissions)

/-- The settings, and what triggers and gates keep. -/
def Db.surroundings (db : Db) : (ScheduleTables × Table String Queue × Table String ℤ × Table String FlowLimit ×
    Table Uuid Admission) × Meters :=
  (db.settings, db.meters)

/-- A call moves the job tables along transitions of a set, leaves the settings, and is made of
statements. -/
structure Path (env : Env) (S : Set Label) (db db' : Db) : Prop where
  steps : Steps S db.toCore db'.toCore
  settings : db'.settings = db.settings
  logs : Logs env db db'

namespace Path

variable {env : Env} {S S' : Set Label} {db db₁ db₂ : Db}

theorem refl (db : Db) : Path env S db db := ⟨.refl _, rfl, .refl _⟩

theorem trans (first : Path env S db db₁) (second : Path env S db₁ db₂) : Path env S db db₂ :=
  ⟨first.steps.trans second.steps, second.settings.trans first.settings, first.logs.trans second.logs⟩

theorem mono (path : Path env S db db₁) (wider : S ⊆ S') : Path env S' db db₁ :=
  ⟨path.steps.mono wider, path.settings, path.logs⟩

theorem single {l : Label} (h : Transition l db.toCore db₁.toCore) (labelled : l ∈ S)
    (settings : db₁.settings = db.settings) (logs : Logs env db db₁) : Path env S db db₁ :=
  ⟨.single h labelled, settings, logs⟩

/-- A transition on tables without triggers and gates. -/
theorem quiet {l : Label} (h : Transition l db.toCore db₁.toCore) (labelled : l ∈ S)
    (jobs : db₁.jobs = db.jobs) (around : db₁.surroundings = db.surroundings) : Path env S db db₁ :=
  single h labelled (congrArg Prod.fst around) (.aside jobs (congrArg Prod.snd around))

/-- Statements on other tables are no step. -/
theorem aside (core : db₁.toCore = db.toCore) (around : db₁.surroundings = db.surroundings) :
    Path env S db db₁ :=
  ⟨core ▸ .refl _, congrArg Prod.fst around,
    .aside (congrArg Core.jobs core) (congrArg Prod.snd around)⟩

theorem mint (minted : Label.mint ∈ S) : Path env S db { db with nextUuid := db.nextUuid + 1 } :=
  quiet (.mint _) minted rfl rfl

theorem of_holding (path : Path env.holding S db db₁) : Path env S db db₁ :=
  ⟨path.steps, path.settings, path.logs.of_holding⟩

end Path

/-- What a call leaves behind of a path when it also moves schedules. -/
structure Trail (env : Env) (S : Set Label) (db db' : Db) : Prop where
  steps : Steps S db.toCore db'.toCore
  logs : Logs env db db'

namespace Trail

variable {env : Env} {S S' : Set Label} {db db₁ db₂ : Db}

theorem refl (db : Db) : Trail env S db db := ⟨.refl _, .refl _⟩

theorem trans (first : Trail env S db db₁) (second : Trail env S db₁ db₂) : Trail env S db db₂ :=
  ⟨first.steps.trans second.steps, first.logs.trans second.logs⟩

theorem of_path (path : Path env S db db₁) (wider : S ⊆ S') : Trail env S' db db₁ :=
  ⟨path.steps.mono wider, path.logs⟩

/-- Rows of the scheduler are written. -/
theorem aside (core : db₁.toCore = db.toCore) (meters : db₁.meters = db.meters) :
    Trail env S db db₁ :=
  ⟨core ▸ .refl _, .aside (congrArg Core.jobs core) meters⟩

theorem after_aside (trail : Trail env S db₁ db₂) (core : db₁.toCore = db.toCore)
    (meters : db₁.meters = db.meters) : Trail env S db db₂ :=
  .trans (.aside core meters) trail

end Trail

/-- A path, apart from what it writes into the admissions. -/
def Registers (env : Env) (S : Set Label) (db db' : Db) : Prop :=
  Path env S db { db' with admissions := db.admissions }

section Registers

variable {env : Env} {S : Set Label} {db db₁ db₂ : Db}

theorem Path.registers (path : Path env S db db₁) : Registers env S db db₁ := by
  have kept : db₁.admissions = db.admissions := congrArg (·.2.2.2.2) path.settings
  unfold Registers
  rwa [← kept]

theorem Path.registers_put (path : Path env S db db₁) (id : Uuid) (a : Admission) :
    Registers env S db (db₁.putAdmission id a) :=
  path.registers

theorem Registers.trail (registers : Registers env S db db₁) : Trail env S db db₁ :=
  (Trail.of_path registers subset_rfl).trans (.aside rfl rfl)

theorem Registers.trans (first : Registers env S db db₁) (second : Registers env S db₁ db₂) :
    Registers env S db db₂ := by
  refine ⟨first.steps.trans second.steps, ?_, (first.trail.trans second.trail).logs.trans (.aside rfl rfl)⟩
  have kept := first.settings
  have kept' := second.settings
  simp only [Db.settings, Prod.mk.injEq] at kept kept' ⊢
  exact ⟨kept'.1.trans kept.1, kept'.2.1.trans kept.2.1, kept'.2.2.1.trans kept.2.2.1,
    kept'.2.2.2.1.trans kept.2.2.2.1, trivial⟩

end Registers

section Breaker

variable {env : Env} {id : Uuid} {new : JobRow} {flow : QueueFlow} {db db' : Db}

theorem settleProbe_frame (run : settleProbe env id new flow db = .ok db') :
    ∃ flows events, db' = { db with queueFlow := flows, events := events } := by
  unfold settleProbe at run
  split at run
  · cases run
    exact ⟨_, _, rfl⟩
  · obtain ⟨probes, -, run⟩ := seq_eq_ok.mp run
    split at run <;> cases run <;> exact ⟨_, _, rfl⟩

theorem settleClosed_frame {threshold : ℤ}
    (run : settleClosed env id new flow threshold db = .ok db') :
    ∃ flows events, db' = { db with queueFlow := flows, events := events } := by
  simp only [settleClosed, seq_eq_ok] at run
  obtain ⟨latency, -, streak, -, rate, -, run⟩ := run
  split at run
  · obtain ⟨total, -, run⟩ := seq_eq_ok.mp run
    cases run
    exact ⟨_, _, rfl⟩
  · split at run <;> cases run <;> exact ⟨_, _, rfl⟩

/-- The breaker writes its own row and an event. -/
theorem breakerOnSettle_frame (run : breakerOnSettle env id new db = .ok db') :
    ∃ flows events, db' = { db with queueFlow := flows, events := events } := by
  unfold breakerOnSettle at run
  split at run
  · cases run
    exact ⟨_, _, rfl⟩
  · split at run
    · cases run
      exact ⟨_, _, rfl⟩
    · split at run
      · exact settleProbe_frame run
      · cases run
        exact ⟨_, _, rfl⟩
      · exact settleClosed_frame run

end Breaker

section Rows

variable {env : Env} {id : Uuid} {old : Job} {new : JobRow} {db db' : Db}

theorem countUpdated_frame (env : Env) (old new : JobRow) (db : Db) :
    ∃ counters, countUpdated env old new db = { db with queueCounters := counters } := by
  unfold countUpdated
  split
  · exact ⟨_, rfl⟩
  · exact ⟨_, rfl⟩

/-- What `writeJob` leaves behind. -/
theorem writeJob_frame (run : writeJob env id old new db = .ok db') :
    ∃ job counts counters flows events, job.toJobRow = new ∧ new.InRange ∧
      updateWorkflowMemberCounts db.workflows old.toJobRow new db.memberCounts = .ok counts ∧
      db' = { db with
        jobs := db.jobs.put id job, memberCounts := counts, queueCounters := counters
        queueFlow := flows, events := events } := by
  simp only [writeJob, seq_eq_ok, ensure_eq_ok, storeJob_eq_ok] at run
  obtain ⟨-, -, job, ⟨range, rfl⟩, -, -, settled, breaker, counts, counted, done⟩ := run
  have flowed : ∃ flows events,
      settled = { db.putJob id job with queueFlow := flows, events := events } := by
    split at breaker
    · exact breakerOnSettle_frame breaker
    · cases breaker
      exact ⟨_, _, rfl⟩
  obtain ⟨flows, events, rfl⟩ := flowed
  obtain ⟨counters, frame⟩ := countUpdated_frame env old.toJobRow job.toJobRow
    { db.putJob id job with queueFlow := flows, events := events }
  rw [frame] at counted done
  cases done
  exact ⟨job, counts, counters, flows, events, rfl, range, counted, rfl⟩

theorem writeJob_attempts (run : writeJob env id old new db = .ok db') :
    db'.attempts = db.attempts := by
  obtain ⟨_, _, _, _, _, -, -, -, rfl⟩ := writeJob_frame run
  rfl

/-- What `insertJob` leaves behind when it inserts. -/
theorem insertJob_frame {inserted : Db} (run : insertJob env id new db = .ok (some inserted)) :
    ∃ job counts counters, job.toJobRow = new ∧ new.InRange ∧ idemClash db.toCore id new = false ∧
      db.jobs.get? id = none ∧ stepTaken db.toCore new = false ∧
      insertWorkflowMemberCounts new db.memberCounts = .ok counts ∧
      inserted = { db with
        jobs := db.jobs.put id job, memberCounts := counts, queueCounters := counters } := by
  simp only [insertJob, seq_eq_ok, storeJob_eq_ok] at run
  obtain ⟨-, -, job, ⟨range, rfl⟩, run⟩ := run
  split at run
  · cases run
  · rename_i free
    simp only [seq_eq_ok, ensure_eq_ok] at run
    obtain ⟨-, fresh, -, step, -, -, -, -, counts, counted, done⟩ := run
    cases done
    exact ⟨job, counts, _, rfl, range, by simpa using free, by simpa using fresh, by simpa using step,
      counted, rfl⟩

/-- When `insertJob` inserts nothing, a live job of the queue holds the key. -/
theorem insertJob_none (run : insertJob env id new db = .ok none) :
    idemClash db.toCore id new = true := by
  simp only [insertJob, seq_eq_ok] at run
  obtain ⟨-, -, job, -, run⟩ := run
  split at run
  · assumption
  · simp only [seq_eq_ok] at run
    obtain ⟨-, -, -, -, -, -, -, -, counts, -, done⟩ := run
    cases done

end Rows

section Ledger

variable {t : Table Uuid Attempt} {attempt : Uuid} {a : Attempt}

theorem ledgerEntry_put (t : Table Uuid Attempt) (attempt b : Uuid) (a : Attempt) :
    ledgerEntry (t.put attempt a) b = if b = attempt then some a.entry else ledgerEntry t b := by
  simp only [ledgerEntry, Table.get?_put]
  split_ifs <;> rfl

theorem updateAttempt_toCore (id : Uuid) (f : Attempt → Attempt) (db : Db) :
    (updateAttempt id f db).toCore =
      { db.toCore with attempts := (updateAttempt id f db).attempts } := by
  unfold updateAttempt
  split <;> rfl

@[simp] theorem updateAttempt_surroundings (id : Uuid) (f : Attempt → Attempt) (db : Db) :
    (updateAttempt id f db).surroundings = db.surroundings := by
  unfold updateAttempt
  split <;> rfl

theorem closeAttempt_toCore (id : Uuid) (f : Attempt → Attempt) (db : Db) :
    (closeAttempt id f db).toCore =
      { db.toCore with attempts := (closeAttempt id f db).attempts } := by
  unfold closeAttempt
  split
  · rfl
  · split <;> rfl

@[simp] theorem closeAttempt_surroundings (id : Uuid) (f : Attempt → Attempt) (db : Db) :
    (closeAttempt id f db).surroundings = db.surroundings := by
  unfold closeAttempt
  split
  · rfl
  · split <;> rfl

/-- A rewrite that keeps the job and the status of the attempt is no step of the ledger. -/
theorem updateAttempt_sameLedger {id : Uuid} {f : Attempt → Attempt} (kept : ∀ a, (f a).entry = a.entry)
    (db : Db) : SameLedger db.attempts (updateAttempt id f db).attempts := by
  intro b
  unfold updateAttempt
  split
  · rfl
  · rename_i a stored
    simp only [ledgerEntry_put, kept]
    split_ifs with same
    · subst same
      simp [ledgerEntry, stored]
    · rfl

/-- Closing an attempt closes its entry. -/
theorem closeAttempt_closes {id : Uuid} {f : Attempt → Attempt} {status : AttemptStatus}
    (closing : ∀ a, (f a).entry = (a.jobId, status)) (db : Db) :
    ClosesEntry id status db.attempts (closeAttempt id f db).attempts := by
  intro b
  unfold closeAttempt
  split
  · rename_i missing
    split_ifs with same
    · subst same
      simp [ledgerEntry, missing]
    · rfl
  · rename_i a stored
    split_ifs with running same same
    · subst same
      simpa [ledgerEntry, stored, closedEntry, Attempt.entry, running] using closing a
    · simp [ledgerEntry_put, same]
    · subst same
      simp [ledgerEntry, stored, closedEntry, Attempt.entry, running]
    · rfl

end Ledger

/-- One change of one job. -/
structure Rewrites (env : Env) (id : Uuid) (k : Change) (db db' : Db) : Prop where
  transition : Transition (.change id k) db.toCore db'.toCore
  settings : db'.settings = db.settings
  logs : Logs env db db'

variable {S : Set Label} {env : Env} {id : Uuid} {old : Job} {new : JobRow}
  {db db₀ db₁ db₂ : Db} {k : Change} {t t₀ : Table Uuid Attempt}

theorem Rewrites.path (rewrites : Rewrites env id k db db₁) (labelled : .change id k ∈ S) :
    Path env S db db₁ :=
  .single rewrites.transition labelled rewrites.settings rewrites.logs

/-- A rewritten job row, a ledger that follows, and for some changes the job's own edges gone: one
transition. The ledger may be written before or after the row. -/
theorem Rewrites.of_write (run : writeJob env id old new db₀ = .ok db₁)
    (before : db₀.toCore = { db.toCore with attempts := t₀ }) (calm : db₀.surroundings = db.surroundings)
    (stored : db.jobs.get? id = some old) (kept : new.identity = old.identity)
    (step : Life.Step old.maxAttempts k old.life new.life) (plain : k ≠ .start ∧ k ≠ .promote)
    (ledger : LedgerMoves k old.toJobRow db.attempts t)
    (after : db₂.toCore = { db₁.toCore with
      attempts := t, deps := if k.unlinks then db₁.deps.filter fun e => e.1 ≠ id else db₁.deps })
    (still : db₂.surroundings = db₁.surroundings) : Rewrites env id k db db₂ := by
  have jobs : db₀.jobs = db.jobs := by rw [before]
  have logs : Logs env db db₂ := by
    refine (Logs.aside jobs (congrArg Prod.snd calm)).trans
      ((Logs.single (.update (by rw [jobs]; exact stored) kept run)).trans (.aside ?_ ?_))
    · rw [after]
    · exact congrArg Prod.snd still
  obtain ⟨job, counts, counters, flows, events, rfl, range, counted, rfl⟩ := writeJob_frame run
  have workflows : db₀.workflows = db.workflows := by rw [before]
  have memberCounts : db₀.memberCounts = db.memberCounts := by rw [before]
  rw [workflows, memberCounts] at counted
  have row : RowWrite db.toCore id old job counts := ⟨stored, range, kept, counted⟩
  refine ⟨?_, (congrArg Prod.fst still).trans (congrArg Prod.fst calm), logs⟩
  rw [after]
  simp only [before]
  exact .change plain row step ledger

namespace Path

theorem change (run : writeJob env id old new db₀ = .ok db₁)
    (before : db₀.toCore = { db.toCore with attempts := t₀ }) (calm : db₀.surroundings = db.surroundings)
    (stored : db.jobs.get? id = some old) (kept : new.identity = old.identity)
    (step : Life.Step old.maxAttempts k old.life new.life) (plain : k ≠ .start ∧ k ≠ .promote)
    (ledger : LedgerMoves k old.toJobRow db.attempts t)
    (after : db₂.toCore = { db₁.toCore with
      attempts := t, deps := if k.unlinks then db₁.deps.filter fun e => e.1 ≠ id else db₁.deps })
    (still : db₂.surroundings = db₁.surroundings) (labelled : .change id k ∈ S) :
    Path env S db db₂ :=
  (Rewrites.of_write run before calm stored kept step plain ledger after still).path labelled

/-- A rewritten row alone. -/
theorem rewrite (run : writeJob env id old new db = .ok db₁) (stored : db.jobs.get? id = some old)
    (kept : new.identity = old.identity) (step : Life.Step old.maxAttempts k old.life new.life)
    (plain : k ≠ .start ∧ k ≠ .promote) (open' : k.closes = none) (linked : k.unlinks = false)
    (labelled : .change id k ∈ S) : Path env S db db₁ := by
  refine change (t := db₁.attempts) run rfl rfl stored kept step plain ?_ ?_ rfl labelled
  · obtain ⟨job, counts, counters, flows, events, -, -, -, rfl⟩ := writeJob_frame run
    simp only [LedgerMoves, open']
    exact SameLedger.refl _
  · simp [linked]

/-- Identifiers handed out and not used. -/
theorem mints (minted : Label.mint ∈ S) (db : Db) (n : ℕ) :
    Path env S db { db with nextUuid := db.nextUuid + n } :=
  ⟨.mints minted db.toCore n, rfl, .aside rfl rfl⟩

/-- An inserted job row and the edges on which the new job waits: one transition. -/
theorem enter {inserted : Db} {parent : Option Uuid} {parents : List Uuid}
    (run : insertJob env id new db = .ok (some inserted)) (minted : id < db.nextUuid)
    (born : new.life = .fresh (if parents = [] then .queued else .blocked) parents.length)
    (entry : Entry db.toCore new parent) (distinct : parents.Nodup)
    (waits : ∀ p ∈ parents, ∃ r, db.jobs.get? p = some r ∧ r.status.terminal = false)
    (after : db₂.toCore = { inserted.toCore with
      deps := inserted.deps ∪ (parents.map fun p => (id, p)).toFinset })
    (still : db₂.surroundings = inserted.surroundings) (labelled : .enter id parent ∈ S) :
    Path env S db db₂ := by
  have logs : Logs env db db₂ := (Logs.single (.insert run)).trans
    (.aside (by rw [after]) (congrArg Prod.snd still))
  obtain ⟨job, counts, counters, rfl, range, alone, fresh, step, counted, rfl⟩ := insertJob_frame run
  refine single (l := .enter id parent) ?_ labelled (congrArg Prod.fst still) logs
  rw [after]
  exact .enter fresh minted range born entry alone step distinct waits counted

end Path

end Taskq
