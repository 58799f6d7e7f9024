import Taskq.Invariants.Sound

/-! What a redrive does: which failed jobs it accepts, and the rows that it leaves behind. -/
namespace Taskq
open Relational

section Single

variable {env : Env} {id : Uuid} {job : Job} {actor : Option String} {reset : Bool} {db db' : Db}

/-- The row of a job after its redrive. -/
def redrivenRow (env : Env) (reset : Bool) (r : JobRow) : JobRow :=
  { r with
      status := .queued, scheduledAt := env.now, failureCount := 0, expiryStreak := 0
      outcome := none, finishedAt := none, finishedByAttemptId := none
      cancelRequestedAt := none, cancelReason := none
      progress := if reset then none else r.progress, updatedAt := env.now }

/-- A live job of the queue holds the key of this one. -/
def keyHeld (core : Core) (id : Uuid) (r : JobRow) : Bool := idemClash core id { r with status := .queued }

/-- A failed job that can be queued again: no member of a workflow, not on a bound queue, and no live job has its key. -/
def Redrivable (db : Db) (id : Uuid) (job : Job) : Prop :=
  job.status = .failed ∧ job.workflowId = none ∧ (db.queues.get? job.queue).any (·.admissionOwnerOid.isSome) = false ∧
    keyHeld db.toCore id job.toJobRow = false

instance {db : Db} {id : Uuid} {job : Job} : Decidable (Redrivable db id job) :=
  inferInstanceAs (Decidable (_ ∧ _ ∧ _ ∧ _))

theorem redrivenRow_clash (core : Core) (r : JobRow) : idemClash core id (redrivenRow env reset r) = keyHeld core id r :=
  rfl

theorem keyHeld_iff {core : Core} {r : JobRow} : keyHeld core id r = true ↔
    r.idempotencyKey.isSome ∧ ∃ (other : Uuid) (j : Job), core.jobs.get? other = some j ∧ other ≠ id ∧ j.status.active = true ∧
      j.queue = r.queue ∧ j.idempotencyKey = r.idempotencyKey := by
  unfold keyHeld idemClash
  simp only [show JobStatus.queued.active = true from rfl, Bool.and_true, Bool.and_eq_true, decide_eq_true_eq]
  refine and_congr Iff.rfl ?_
  rw [ne_eq, List.length_eq_zero_iff, List.eq_nil_iff_forall_not_mem, not_forall]
  constructor
  · rintro ⟨⟨other, j⟩, there⟩
    obtain ⟨stored, good⟩ := Table.mem_select.mp (not_not.mp there)
    exact ⟨other, j, stored, by simpa using good⟩
  · rintro ⟨other, j, stored, good⟩
    exact ⟨(other, j), not_not_intro (Table.mem_select.mpr ⟨stored, by simpa using good⟩)⟩

/-- A redrive that succeeds. -/
theorem redriveJob_done (run : redriveJob env id actor reset db = .ok db') :
    ∃ job job' : Job, db.jobs.get? id = some job ∧ Redrivable db id job ∧ db'.queues = db.queues ∧
      db'.workflows = db.workflows ∧ job'.toJobRow = redrivenRow env reset job.toJobRow ∧
      db'.jobs = db.jobs.put id job' := by
  unfold redriveJob at run
  split at run
  · cases run
  rename_i job stored
  simp only [seq_eq_ok, ensure_eq_ok, mapError_eq_ok] at run
  obtain ⟨-, member, -, failed, written, write, evented, event, finish⟩ := run
  cases finish
  rw [emitEvent_quiet (by decide) (by decide)] at event
  cases event
  have checked := write
  simp only [writeJob, seq_eq_ok, ensure_eq_ok] at checked
  obtain ⟨⟨⟩, owner, _, -, ⟨⟩, free, -⟩ := checked
  obtain ⟨job', _, _, _, _, row, -, -, rfl⟩ := writeJob_frame write
  refine ⟨job, job', stored, ⟨failed, Option.isNone_iff_eq_none.mp member, ?_, ?_⟩, rfl, rfl, row, rfl⟩
  · unfold admissionOwnerGuardUpdate at owner
    simpa [failed, JobStatus.terminal] using owner
  · have ended : ¬job.status.active = true := by simp [failed, JobStatus.active, JobStatus.terminal]
    exact eq_false_of_ne_true (free.resolve_left ended)

theorem redrivenRow_range (range : job.InRange) : (redrivenRow env reset job.toJobRow).InRange := by
  have zero : (-32768 : ℤ) ≤ 0 ∧ (0 : ℤ) ≤ 32767 := by decide
  exact ⟨range.priority, range.pendingDeps, range.attemptCount, zero, range.releaseCount, zero, range.maxAttempts⟩

theorem redrivenRow_checks (failed : job.status = .failed) : (redrivenRow env reset job.toJobRow).checksOk = true := by
  obtain ⟨columns, member, -, -⟩ := job.checks_parts
  have idle : (job.currentAttemptId.isSome && job.leaseExpiresAt.isSome) = false := eq_false_of_ne_true fun both => by
    have running := job.running_iff.mpr (by simpa using both)
    rw [failed] at running
    cases running
  have columns' : (redrivenRow env reset job.toJobRow).columnsOk = true := columns
  have member' : (redrivenRow env reset job.toJobRow).memberShape = true := member
  have running' : (redrivenRow env reset job.toJobRow).runningShape = true := by
    simp only [JobRow.runningShape, redrivenRow, decide_eq_true_eq, eq_iff_iff]
    exact ⟨fun same => absurd same (by decide), fun both => by rw [idle] at both; cases both⟩
  have live : (redrivenRow env reset job.toJobRow).terminalShape = true := rfl
  rw [JobRow.checksOk, columns', member', running', live]
  rfl

/-- The write of a redrive fails on a bound queue and on a key that a live job holds. -/
theorem redriven_writes (env : Env) (reset : Bool) (ok : Sound db.toCore) (stored : db.jobs.get? id = some job)
    (failed : job.status = .failed) :
    if (db.queues.get? job.queue).any (·.admissionOwnerOid.isSome) ∨ keyHeld db.toCore id job.toJobRow then
      ∃ e, writeJob env id job (redrivenRow env reset job.toJobRow) db = .error e ∧ (mapUniqueViolation e).state = .tq409
    else ∃ db', writeJob env id job (redrivenRow env reset job.toJobRow) db = .ok db' := by
  have row : storeJob (redrivenRow env reset job.toJobRow) = .ok ⟨_, redrivenRow_checks failed⟩ :=
    storeJob_eq_ok.mpr ⟨redrivenRow_range (ok.range id job stored), rfl⟩
  have owner : admissionOwnerGuardUpdate job.toJobRow (redrivenRow env reset job.toJobRow) db =
      ensure (¬(db.queues.get? job.queue).any (·.admissionOwnerOid.isSome))
        (.because .tq409 "terminal jobs on bound queues cannot be redriven" "bound_queue_redrive") := by
    simp [admissionOwnerGuardUpdate, failed, JobStatus.terminal, redrivenRow]
  have ended : job.status.active = false := by simp [failed, JobStatus.active, JobStatus.terminal]
  have settled : ¬decide ((JobStatus.queued = .failed ∨ JobStatus.queued = .succeeded) ∧ JobStatus.queued ≠ job.status) =
      true := by simp
  unfold writeJob
  rw [owner, row]
  split_ifs with held
  · by_cases bound : (db.queues.get? job.queue).any (·.admissionOwnerOid.isSome) = true
    · exact ⟨_, seq_eq_error.mpr (.inl (ensure_eq_error.mpr ⟨not_not_intro bound, rfl⟩)), rfl⟩
    · refine ⟨_, seq_eq_error.mpr (.inr ⟨(), ensure_eq_ok.mpr bound, seq_eq_error.mpr (.inr ⟨_, rfl, seq_eq_error.mpr (.inl
        (ensure_eq_error.mpr ⟨?_, rfl⟩))⟩)⟩), rfl⟩
      simpa [ended, redrivenRow_clash] using held.resolve_left bound
  · obtain ⟨bound, free⟩ := not_or.mp held
    obtain ⟨counters, frame⟩ := countUpdated_frame env job.toJobRow (redrivenRow env reset job.toJobRow)
      (db.putJob id ⟨_, redrivenRow_checks failed⟩)
    obtain ⟨counts, counted⟩ := ok.counts_move stored (redrivenRow env reset job.toJobRow)
    refine ⟨_, seq_eq_ok.mpr ⟨(), ensure_eq_ok.mpr bound, seq_eq_ok.mpr ⟨_, rfl, seq_eq_ok.mpr ⟨(),
      ensure_eq_ok.mpr (.inr free), seq_eq_ok.mpr ⟨_, if_neg settled, seq_eq_ok.mpr ⟨counts, ?_, rfl⟩⟩⟩⟩⟩⟩
    rw [frame]
    exact counted

/-- A failed job is redriven when it can be; otherwise the redrive reports a conflict. -/
theorem redriveJob_total (env : Env) (actor : Option String) (reset : Bool) (ok : Sound db.toCore)
    (stored : db.jobs.get? id = some job) (failed : job.status = .failed) :
    (Redrivable db id job ∧ ∃ db', redriveJob env id actor reset db = .ok db') ∨
      (¬Redrivable db id job ∧ ∃ e, redriveJob env id actor reset db = .error e ∧ e.state = .tq409) := by
  have step : redriveJob env id actor reset db = (do
      ensure (job.workflowId.isNone)
        (.because .tq409 "workflow members cannot be individually redriven" "workflow_member_redrive_forbidden")
      ensure (job.status = .failed) notRedrivable
      let db ← (writeJob env id job (redrivenRow env reset job.toJobRow) db).mapError mapUniqueViolation
      let db ← emitEvent env id none "redriven" actor "operator redrive from failed" none db
      .ok (notifyQueue job.queue db)) := by
    unfold redriveJob
    rw [stored]
    rfl
  have write := redriven_writes env reset ok stored failed
  rw [step]
  by_cases single : job.workflowId.isNone = true
  · split_ifs at write with held
    · obtain ⟨e, raised, conflict⟩ := write
      refine .inr ⟨fun free => ?_, mapUniqueViolation e, ?_, conflict⟩
      · simp [free.2.2.1, free.2.2.2] at held
      · refine seq_eq_error.mpr (.inr ⟨(), ensure_eq_ok.mpr single, seq_eq_error.mpr (.inr ⟨(), ensure_eq_ok.mpr failed,
          seq_eq_error.mpr (.inl ?_)⟩)⟩)
        rw [raised]
        rfl
    · obtain ⟨bound, free⟩ := not_or.mp held
      obtain ⟨written, write⟩ := write
      refine .inl ⟨⟨failed, Option.isNone_iff_eq_none.mp single, eq_false_of_ne_true bound, eq_false_of_ne_true free⟩, ?_⟩
      exact ⟨_, seq_eq_ok.mpr ⟨(), ensure_eq_ok.mpr single, seq_eq_ok.mpr ⟨(), ensure_eq_ok.mpr failed,
        seq_eq_ok.mpr ⟨written, mapError_eq_ok.mpr write, seq_eq_ok.mpr ⟨_, emitEvent_quiet (by decide) (by decide), rfl⟩⟩⟩⟩⟩
  · exact .inr ⟨fun free => single (by rw [free.2.1]; rfl), _,
      seq_eq_error.mpr (.inl (ensure_eq_error.mpr ⟨single, rfl⟩)), rfl⟩

end Single

section Bulk

variable {env : Env} {id : Uuid} {job : Job} {actor : Option String} {db db' : Db} {smear : ℤ}
  {queue : String} {ids : List Uuid}

/-- The row of a job after a bulk redrive. -/
def smearedRow (env : Env) (smear : ℤ) (id : Uuid) (r : JobRow) : JobRow :=
  { redrivenRow env false r with scheduledAt := if 0 < smear then smearedAt env id smear else env.now }

/-- The rows of these jobs are redriven, and no other row changes. -/
def Redriven (env : Env) (smear : ℤ) (done : List Uuid) (db db' : Db) : Prop :=
  ∀ id, (db'.jobs.get? id).map (·.toJobRow) =
    (db.jobs.get? id).map fun job => if id ∈ done then smearedRow env smear id job.toJobRow else job.toJobRow

/-- What a redrive leaves alone. -/
def Undriven (db db' : Db) : Prop := db'.queues = db.queues ∧ db'.workflows = db.workflows

/-- One row of a bulk redrive is redriven when it can be, and is skipped otherwise. -/
theorem redriveOne_total (env : Env) (actor : Option String) (smear : ℤ) (ok : Sound db.toCore)
    (stored : db.jobs.get? id = some job) (failed : job.status = .failed) :
    (Redrivable db id job ∧ ∃ db' job', redriveOne env actor smear id db = .ok (true, db') ∧ Undriven db db' ∧
        job'.toJobRow = smearedRow env smear id job.toJobRow ∧ db'.jobs = db.jobs.put id job') ∨
      (¬Redrivable db id job ∧ redriveOne env actor smear id db = .ok (false, db)) := by
  obtain ⟨free, db₁, redrive⟩ | ⟨held, e, raised, conflict⟩ := redriveJob_total env actor false ok stored failed
  · obtain ⟨_, job₁, here, -, queues, workflows, row, jobs⟩ := redriveJob_done redrive
    cases here.symm.trans stored
    have sound : Sound db₁.toCore := ok.steps (redriveJob_path redrive).steps
    refine .inl ⟨free, ?_⟩
    unfold redriveOne
    rw [redrive]
    dsimp only [bind, Except.bind]
    split_ifs with smears
    · have stored₁ : db₁.jobs.get? id = some job₁ := by rw [jobs, Table.get?_put_self]
      have queued : job₁.status = .queued := by rw [row]; rfl
      have range := sound.range id job₁ stored₁
      obtain ⟨db₂, write⟩ : ∃ db₂, writeJob env id job₁ { job₁.toJobRow with scheduledAt := smearedAt env id smear } db₁ =
          .ok db₂ := sound.writes env stored₁ (by simp [queued, JobStatus.terminal])
        ⟨range.priority, range.pendingDeps, range.attemptCount, range.failureCount, range.releaseCount, range.expiryStreak,
          range.maxAttempts⟩ job₁.checks fun _ _ settled => by simp [queued] at settled
      obtain ⟨job₂, _, _, _, _, row₂, -, -, frame⟩ := writeJob_frame write
      refine ⟨db₂, job₂, ?_, ?_, ?_, ?_⟩
      · unfold updateJob
        rw [stored₁]
        dsimp only
        rw [write]
      · rw [frame]
        exact ⟨queues, workflows⟩
      · rw [row₂, row, smearedRow, if_pos smears]
      · rw [frame]
        dsimp only
        rw [jobs, Table.put_put]
    · refine ⟨db₁, job₁, rfl, ⟨queues, workflows⟩, ?_, jobs⟩
      rw [row, smearedRow, if_neg smears]
      rfl
  · refine .inr ⟨held, ?_⟩
    unfold redriveOne
    rw [raised]
    exact if_pos conflict

/-- What a redriven job occupies: its idempotency key, or only itself. -/
def slot (db : Db) (id : Uuid) : Uuid ⊕ String :=
  match (db.jobs.get? id).bind (·.idempotencyKey) with
  | some key => .inr key
  | none => .inl id

/-- The jobs of a list that a redrive accepts now. -/
def redrivable (db : Db) (ids : List Uuid) : List Uuid :=
  ids.filter fun id => (db.jobs.get? id).any fun job => Redrivable db id job

/-- What the jobs of a list occupy when they are redriven one after the other. -/
def slots (db : Db) (ids : List Uuid) : Finset (Uuid ⊕ String) := ((redrivable db ids).map (slot db)).toFinset

/-- The failed jobs of the queue among these. -/
def FailedIn (queue : String) (db : Db) (ids : List Uuid) : Prop :=
  ∀ id ∈ ids, ∃ job, db.jobs.get? id = some job ∧ job.status = .failed ∧ job.queue = queue

theorem mem_slots {x : Uuid ⊕ String} : x ∈ slots db ids ↔
    ∃ id ∈ ids, ∃ job, db.jobs.get? id = some job ∧ Redrivable db id job ∧ slot db id = x := by
  simp only [slots, redrivable, List.mem_toFinset, List.mem_map, List.mem_filter, Option.any_eq_true, decide_eq_true_eq]
  constructor
  · rintro ⟨id, ⟨member, job, stored, free⟩, same⟩
    exact ⟨id, member, job, stored, free, same⟩
  · rintro ⟨id, member, job, stored, free, same⟩
    exact ⟨id, ⟨member, job, stored, free⟩, same⟩

theorem slot_eq_iff {other : Uuid} {j : Job} (stored : db.jobs.get? id = some job) (stored' : db.jobs.get? other = some j)
    (apart : other ≠ id) : slot db other = slot db id ↔ j.idempotencyKey.isSome ∧ job.idempotencyKey = j.idempotencyKey := by
  simp only [slot, stored, stored', Option.bind_some]
  cases j.idempotencyKey <;> cases job.idempotencyKey <;> simp [apart.symm, eq_comm]

/-- These jobs of the queue. -/
def Within (queue : String) (db : Db) (ids : List Uuid) : Prop :=
  ∀ id ∈ ids, ∃ job, db.jobs.get? id = some job ∧ job.queue = queue

theorem FailedIn.within (failed : FailedIn queue db ids) : Within queue db ids := fun id member => by
  obtain ⟨job, stored, -, own⟩ := failed id member
  exact ⟨job, stored, own⟩

/-- A redrive takes its slot away. -/
theorem slots_redriven {job' : Job} (within : Within queue db ids) (stored : db.jobs.get? id = some job)
    (dead : job.status = .failed) (own : job.queue = queue)
    (row : job'.toJobRow = smearedRow env smear id job.toJobRow) (jobs : db'.jobs = db.jobs.put id job')
    (queues : db'.queues = db.queues) : slots db' ids = (slots db ids).erase (slot db id) := by
  have key : job'.idempotencyKey = job.idempotencyKey := by rw [row]; rfl
  have there : job'.queue = job.queue := by rw [row]; rfl
  have live : job'.status.active = true := by rw [row]; rfl
  have ended : ¬job.status.active = true := by simp [dead, JobStatus.active, JobStatus.terminal]
  have others {other : Uuid} (apart : other ≠ id) : db'.jobs.get? other = db.jobs.get? other := by
    rw [jobs, Table.get?_put_of_ne _ _ apart]
  have held {other : Uuid} {j : Job} (queued : j.queue = queue) (apart : other ≠ id) :
      keyHeld db'.toCore other j.toJobRow = true ↔
        keyHeld db.toCore other j.toJobRow = true ∨ j.idempotencyKey.isSome ∧ job.idempotencyKey = j.idempotencyKey := by
    rw [keyHeld_iff, keyHeld_iff]
    constructor
    · rintro ⟨keyed, holder, h, found, elsewhere, active, queue, same⟩
      by_cases mine : holder = id
      · subst mine
        rw [jobs, Table.get?_put_self] at found
        cases found
        exact .inr ⟨keyed, key ▸ same⟩
      · exact .inl ⟨keyed, holder, h, others mine ▸ found, elsewhere, active, queue, same⟩
    · rintro (⟨keyed, holder, h, found, elsewhere, active, queue, same⟩ | ⟨keyed, same⟩)
      · have mine : holder ≠ id := by
          rintro rfl
          cases stored.symm.trans found
          exact ended active
        exact ⟨keyed, holder, h, (others mine).trans found, elsewhere, active, queue, same⟩
      · exact ⟨keyed, id, job', by rw [jobs, Table.get?_put_self], apart.symm, live, there.trans (own.trans queued.symm),
          key.trans same⟩
  ext x
  rw [Finset.mem_erase, mem_slots, mem_slots]
  have each {other : Uuid} (member : other ∈ ids) (j : Job) :
      (db'.jobs.get? other = some j ∧ Redrivable db' other j ∧ slot db' other = x) ↔
        x ≠ slot db id ∧ db.jobs.get? other = some j ∧ Redrivable db other j ∧ slot db other = x := by
    by_cases apart : other = id
    · subst apart
      rw [jobs, Table.get?_put_self]
      constructor
      · rintro ⟨found, ⟨dead', -⟩, -⟩
        cases found
        rw [row] at dead'
        cases dead'
      · rintro ⟨alone, -, -, rfl⟩
        exact absurd rfl alone
    have slots : slot db' other = slot db other := by unfold slot; rw [others apart]
    rw [others apart, slots]
    constructor
    · rintro ⟨found, ⟨dead', single, bound, free⟩, rfl⟩
      obtain ⟨j', found', queued⟩ := within other member
      cases found.symm.trans found'
      have free' := mt (held queued apart).mpr (by simp [free])
      obtain ⟨free', alone⟩ := not_or.mp free'
      exact ⟨mt (slot_eq_iff stored found apart).mp alone, found, ⟨dead', single, queues ▸ bound, eq_false_of_ne_true free'⟩,
        rfl⟩
    · rintro ⟨alone, found, ⟨dead', single, bound, free⟩, rfl⟩
      obtain ⟨j', found', queued⟩ := within other member
      cases found.symm.trans found'
      have free' : ¬keyHeld db'.toCore other j.toJobRow = true := mt (held queued apart).mp fun either => by
        rcases either with before | same
        · rw [free] at before
          cases before
        · exact alone ((slot_eq_iff stored found apart).mpr same)
      exact ⟨found, ⟨dead', single, queues.symm ▸ bound, eq_false_of_ne_true free'⟩, rfl⟩
  constructor
  · rintro ⟨other, member, j, found⟩
    obtain ⟨apart, found⟩ := (each member j).mp found
    exact ⟨apart, other, member, j, found⟩
  · rintro ⟨apart, other, member, j, found⟩
    exact ⟨other, member, j, (each member j).mpr ⟨apart, found⟩⟩

theorem redrivable_cons (stored : db.jobs.get? id = some job) :
    redrivable db (id :: ids) = if Redrivable db id job then id :: redrivable db ids else redrivable db ids := by
  simp [redrivable, List.filter_cons, stored]

/-- The loop of a bulk redrive: as many jobs are redriven as there are slots for, and no other row changes. -/
theorem redriveAll_total (env : Env) (actor : Option String) (smear : ℤ) (ok : Sound db.toCore) (nodup : ids.Nodup)
    (failed : FailedIn queue db ids) :
    ∃ done db', redriveAll env actor smear ids db = .ok ((done.length, (ids.length : ℤ) - done.length), db') ∧
      done.Sublist ids ∧ done.length = (slots db ids).card ∧ Redriven env smear done db db' ∧
      (∀ id ∈ done, ∃ job, db.jobs.get? id = some job ∧ job.workflowId = none) ∧
      ∀ all, Within queue db all → slots db' all = slots db all \ slots db ids := by
  induction ids generalizing db with
  | nil =>
    exact ⟨[], db, rfl, .slnil, rfl, fun id => by simp, fun id member => (nomatch member), fun all _ => by
      simp [slots, redrivable]⟩
  | cons id ids ih =>
    obtain ⟨fresh, nodup⟩ := List.nodup_cons.mp nodup
    obtain ⟨job, stored, dead, own⟩ := failed id List.mem_cons_self
    have rest : FailedIn queue db ids := fun other member => failed other (List.mem_cons_of_mem id member)
    obtain ⟨free, db₁, job₁, step, ⟨queues, -⟩, row, jobs⟩ | ⟨held, step⟩ :=
      redriveOne_total env actor smear ok stored dead
    · have others {other : Uuid} (apart : other ≠ id) : db₁.jobs.get? other = db.jobs.get? other := by
        rw [jobs, Table.get?_put_of_ne _ _ apart]
      have rest₁ : FailedIn queue db₁ ids := fun other member => by
        rw [others fun same => fresh (same ▸ member)]
        exact rest other member
      obtain ⟨done, db', loop, sub, count, rows, single, left⟩ := ih (ok.steps (redriveOne_path step).steps) nodup rest₁
      rw [slots_redriven rest.within stored dead own row jobs queues] at count left
      have taken : slots db (id :: ids) = insert (slot db id) ((slots db ids).erase (slot db id)) := by
        rw [slots, redrivable_cons stored, if_pos free, List.map_cons, List.toFinset_cons, ← slots]
        ext x
        by_cases same : x = slot db id <;> simp [same]
      refine ⟨id :: done, db', ?_, sub.cons_cons id, ?_, fun other => ?_, fun other member => ?_, fun all within => ?_⟩
      · unfold redriveAll
        rw [step]
        dsimp only [bind, Except.bind]
        rw [loop]
        simp only [if_true, List.length_cons, Nat.cast_add, Nat.cast_one, add_sub_add_right_eq_sub]
      · rw [taken, Finset.card_insert_of_notMem (Finset.notMem_erase _ _), List.length_cons, count]
      · rw [rows other]
        by_cases mine : other = id
        · subst mine
          rw [jobs, Table.get?_put_self, stored, Option.map_some, Option.map_some, if_pos List.mem_cons_self,
            if_neg fun member => fresh (sub.subset member), row]
        · rw [others mine]
          simp [mine]
      · rcases List.mem_cons.mp member with rfl | later
        · exact ⟨job, stored, free.2.1⟩
        · obtain ⟨j, found, alone⟩ := single other later
          rw [others fun same => fresh (same ▸ sub.subset later)] at found
          exact ⟨j, found, alone⟩
      · have within₁ : Within queue db₁ all := fun other member => by
          obtain ⟨j, found, queued⟩ := within other member
          by_cases mine : other = id
          · subst mine
            exact ⟨job₁, by rw [jobs, Table.get?_put_self], by rw [row]; exact own⟩
          · exact ⟨j, (others mine).trans found, queued⟩
        rw [left all within₁, slots_redriven within stored dead own row jobs queues, taken]
        ext x
        simp only [Finset.mem_sdiff, Finset.mem_erase, Finset.mem_insert]
        tauto
    · obtain ⟨done, db', loop, sub, count, rows, single, left⟩ := ih ok nodup rest
      have skipped : slots db (id :: ids) = slots db ids := by
        rw [slots, slots, redrivable_cons stored, if_neg held]
      refine ⟨done, db', ?_, sub.cons id, by rw [count, skipped], rows, single, by rw [skipped]; exact left⟩
      · unfold redriveAll
        rw [step]
        dsimp only [bind, Except.bind]
        rw [loop]
        simp only [Bool.false_eq_true, if_false, List.length_cons, Nat.cast_add, Nat.cast_one]
        congr 3
        ring

/-- Redrive these jobs one after the other. -/
def inTurn (env : Env) (actor : Option String) : List Uuid → Db → Call Db :=
  forEach fun id => redriveJob env id actor false

theorem redriveOne_job {done : Bool} (run : redriveOne env actor 0 id db = .ok (done, db')) :
    if done then redriveJob env id actor false db = .ok db' else db' = db := by
  unfold redriveOne at run
  dsimp only at run
  split at run
  · rename_i last redriven
    cases run
    obtain ⟨next, redrive, same⟩ := seq_eq_ok.mp redriven
    cases same
    exact redrive
  · split_ifs at run
    cases run
    rfl

/-- A bulk redrive without smear redrives one after the other those that it does not skip. -/
theorem redriveAll_inTurn {answer : ℤ × ℤ} (run : redriveAll env actor 0 ids db = .ok (answer, db')) :
    ∃ order : List Uuid, order.Sublist ids ∧ (order.length : ℤ) = answer.1 ∧ inTurn env actor order db = .ok db' := by
  induction ids generalizing db answer with
  | nil =>
    cases run
    exact ⟨[], .slnil, rfl, rfl⟩
  | cons id ids ih =>
    simp only [redriveAll, seq_eq_ok] at run
    obtain ⟨⟨done, next⟩, first, ⟨⟨redriven, skipped⟩, last⟩, rest, finish⟩ := run
    cases finish
    obtain ⟨order, sub, count, turn⟩ := ih rest
    have one := redriveOne_job first
    cases done with
    | true =>
      refine ⟨id :: order, sub.cons_cons id, ?_, seq_eq_ok.mpr ⟨next, one, turn⟩⟩
      simpa using count
    | false =>
      cases one
      exact ⟨order, sub.cons id, count, turn⟩

theorem inTurn_failed (run : inTurn env actor ids db = .ok db') (member : id ∈ ids) :
    ∃ job, db.jobs.get? id = some job ∧ job.status = .failed := by
  induction ids generalizing db with
  | nil => cases member
  | cons first ids ih =>
    obtain ⟨next, redrive, rest⟩ := seq_eq_ok.mp run
    obtain ⟨job, job', stored, free, -, -, row, jobs⟩ := redriveJob_done redrive
    by_cases mine : id = first
    · subst mine
      exact ⟨job, stored, free.1⟩
    · obtain ⟨j, found, dead⟩ := ih rest ((List.mem_cons.mp member).resolve_left mine)
      rw [jobs, Table.get?_put_of_ne _ _ mine] at found
      exact ⟨j, found, dead⟩

/-- No job is redriven twice in a row. -/
theorem inTurn_nodup (run : inTurn env actor ids db = .ok db') : ids.Nodup := by
  induction ids generalizing db with
  | nil => exact List.nodup_nil
  | cons id ids ih =>
    obtain ⟨next, redrive, rest⟩ := seq_eq_ok.mp run
    obtain ⟨job, job', -, -, -, -, row, jobs⟩ := redriveJob_done redrive
    refine List.nodup_cons.mpr ⟨fun again => ?_, ih rest⟩
    obtain ⟨j, found, dead⟩ := inTurn_failed rest again
    rw [jobs, Table.get?_put_self] at found
    cases found
    rw [row] at dead
    cases dead

/-- Jobs that are redriven in turn are all redriven by a bulk redrive of them. -/
theorem redriveAll_of_inTurn (run : inTurn env actor ids db = .ok db') :
    redriveAll env actor 0 ids db = .ok (((ids.length : ℤ), 0), db') := by
  induction ids generalizing db with
  | nil =>
    cases run
    rfl
  | cons id ids ih =>
    obtain ⟨next, redrive, rest⟩ := seq_eq_ok.mp run
    have one : redriveOne env actor 0 id db = .ok (true, next) := by
      have redrive : redriveJob env id actor false db = .ok next := redrive
      unfold redriveOne
      rw [redrive]
      rfl
    unfold redriveAll
    rw [one]
    dsimp only [bind, Except.bind]
    rw [ih rest]
    simp

/-- The slots are as many as jobs of the list can be redriven one after the other. -/
theorem slots_greatest (env : Env) (actor : Option String) (ok : Sound db.toCore) (nodup : ids.Nodup)
    (failed : FailedIn queue db ids) :
    IsGreatest {n | ∃ order db', order ⊆ ids ∧ order.length = n ∧ inTurn env actor order db = .ok db'}
      (slots db ids).card := by
  constructor
  · obtain ⟨done, db', run, -, count, -⟩ := redriveAll_total env actor 0 ok nodup failed
    obtain ⟨order, sub, length, turn⟩ := redriveAll_inTurn run
    exact ⟨order, db', sub.subset, by rw [← count]; exact Int.ofNat.inj length, turn⟩
  · rintro n ⟨order, db', sub, rfl, turn⟩
    obtain ⟨done, last, run, -, count, -⟩ := redriveAll_total env actor 0 ok (inTurn_nodup turn)
      fun id member => failed id (sub member)
    have same := (redriveAll_of_inTurn turn).symm.trans run
    have all : order.length = done.length := by
      injection same with same
      injection same with same
      injection same with same
      exact_mod_cast same
    rw [all, count]
    refine Finset.card_le_card fun x member => ?_
    obtain ⟨id, member, rest⟩ := mem_slots.mp member
    exact mem_slots.mpr ⟨id, sub member, rest⟩

end Bulk

end Taskq
