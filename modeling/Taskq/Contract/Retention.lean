import Taskq.Contract.Occurrences
import Taskq.Contract.WorkflowStatus
import Taskq.Invariants.Keys
import Taskq.Invariants.Sound
import Taskq.Library.Window

/-! What the janitor deletes, what stops it, and how long rows are kept. -/
namespace Taskq
open Relational

variable {site : Site} {allowed : System → Env → Command → Prop} {s t : System} {env : Env} {db db' : Db} {id : Uuid}
  {job : Job} {g : StatusGroup}

section Dismantling

/-- Every job that depends on a job of the list is itself of the list, and is reached no later. -/
def Dismantles (deps : Finset (Uuid × Uuid)) (ids : List Uuid) : Prop :=
  ∀ e ∈ deps, ∀ i : ℕ, ids[i]? = some e.2 → ∃ j ≤ i, ids[j]? = some e.1

theorem dismantles_nil (deps : Finset (Uuid × Uuid)) : Dismantles deps [] := by
  intro e edge i here
  cases here

/-- The first of the list has no dependent but itself, and its own edges go with it. -/
theorem dismantles_cons {deps : Finset (Uuid × Uuid)} {ids : List Uuid} : Dismantles deps (id :: ids) ↔
    (∀ e ∈ deps, e.1 ≠ id → e.2 ≠ id) ∧ Dismantles (deps.filter fun e => e.1 ≠ id) ids := by
  constructor
  · intro ordered
    constructor
    · intro e edge apart same
      obtain ⟨j, first, here⟩ := ordered e edge 0 (by simp [same])
      obtain rfl : j = 0 := by omega
      exact apart (Option.some.inj here).symm
    · intro e edge i later
      obtain ⟨edge, apart⟩ := Finset.mem_filter.mp edge
      obtain ⟨j, before, here⟩ := ordered e edge (i + 1) later
      cases j with
      | zero => exact absurd (Option.some.inj here).symm apart
      | succ j => exact ⟨j, by omega, here⟩
  · rintro ⟨free, rest⟩ e edge i here
    by_cases own : e.1 = id
    · exact ⟨0, by omega, by simp [own]⟩
    · cases i with
      | zero => exact absurd (Option.some.inj here).symm (free e edge own)
      | succ i =>
        obtain ⟨j, before, there⟩ := rest e (Finset.mem_filter.mpr ⟨edge, own⟩) i here
        exact ⟨j + 1, by omega, there⟩

/-- A stored member that is deleted leaves counts that pass their checks. -/
theorem Sound.counts_leave (ok : Sound db.toCore) (stored : db.jobs.get? id = some job) :
    ∃ m, deleteWorkflowMemberCounts db.workflows job.toJobRow db.memberCounts = .ok m := by
  unfold deleteWorkflowMemberCounts
  cases member : job.workflowId with
  | none => exact ⟨_, rfl⟩
  | some w =>
    obtain ⟨counts, there⟩ := Option.ne_none_iff_exists'.mp
      (mt (ok.members.paired w).mp (ok.members.known id job w stored member))
    have admitted : counts.admittedTotal.all (0 ≤ ·) = true := by
      have all := ok.counts w counts there
      simp only [MemberCounts.checksOk, Bool.and_eq_true] at all
      exact all.2
    have present : 0 < membersIn db.jobs w job.status := by
      apply Nat.pos_of_ne_zero
      intro none'
      have absent := Table.count_eq_zero.mp none' id job stored
      simp [member] at absent
    have leaves : ∀ status, 0 ≤ (counts.minus job.status).of status := by
      intro status
      rw [MemberCounts.minus_of, ok.members.counted w counts there status]
      by_cases same : job.status = status
      · subst same
        simp only [one, decide_true, if_true]
        omega
      · simp [one, same]
    simp [countLeave, there, putCounts, checksOk_of (counts.minus job.status) admitted leaves, ensure, bind, Except.bind]

/-- A terminal row goes exactly when nothing else depends on it. -/
theorem deleteJob_iff (env : Env) (ok : Sound db.toCore) (stored : db.jobs.get? id = some job) :
    (∃ db', deleteJob env (id, job) db = .ok db') ↔ ∀ e ∈ db.deps, e.1 ≠ id → e.2 ≠ id := by
  constructor
  · rintro ⟨db', run⟩
    simp only [deleteJob, seq_eq_ok, ensure_eq_ok] at run
    obtain ⟨-, free, -⟩ := run
    intro e edge apart
    exact free e (Finset.mem_filter.mpr ⟨edge, apart⟩)
  · intro free
    obtain ⟨m, counted⟩ := ok.counts_leave stored
    obtain ⟨counters, same⟩ := countDeleted_frame env job.toJobRow { db with
      jobs := db.jobs.remove id
      attempts := db.attempts.keep fun _ a => a.jobId ≠ id
      deps := db.deps.filter fun e => e.1 ≠ id }
    simp only [deleteJob, seq_eq_ok, ensure_eq_ok]
    refine ⟨_, (), ?_, m, ?_, rfl⟩
    · intro e edge
      obtain ⟨edge, apart⟩ := Finset.mem_filter.mp edge
      exact free e edge apart
    · rw [same]
      exact counted

theorem deleteJob_deps (run : deleteJob env (id, job) db = .ok db') : db'.deps = db.deps.filter fun e => e.1 ≠ id := by
  simp only [deleteJob, seq_eq_ok] at run
  obtain ⟨-, -, counts, -, finish⟩ := run
  cases finish
  unfold countDeleted
  split <;> rfl

/-- Terminal rows are deleted one after another exactly when each is reached after all that depend on it. -/
theorem deletes_iff {rows : List (Uuid × Job)} (env : Env) (ok : Sound db.toCore) (keys : (rows.map Prod.fst).Nodup)
    (current : ∀ r ∈ rows, db.jobs.get? r.1 = some r.2) (ended : ∀ r ∈ rows, r.2.status.terminal = true) :
    (∃ db', forEach (deleteJob env) rows db = .ok db') ↔ Dismantles db.deps (rows.map Prod.fst) := by
  induction rows generalizing db with
  | nil => exact ⟨fun _ => dismantles_nil _, fun _ => ⟨db, rfl⟩⟩
  | cons row rows ih =>
    obtain ⟨id, job⟩ := row
    obtain ⟨fresh, distinct⟩ := List.nodup_cons.mp keys
    have stored : db.jobs.get? id = some job := current _ List.mem_cons_self
    have terminal : job.status.terminal = true := ended _ List.mem_cons_self
    have rest : ∀ mid, deleteJob env (id, job) db = .ok mid →
        ((∃ db', forEach (deleteJob env) rows mid = .ok db') ↔
          Dismantles (db.deps.filter fun e => e.1 ≠ id) (rows.map Prod.fst)) := by
      intro mid run
      obtain ⟨path, others⟩ := deleteJob_path run stored terminal
      rw [← deleteJob_deps run]
      refine ih (ok.steps path.steps) distinct ?_ fun r member => ended r (List.mem_cons_of_mem _ member)
      intro r member
      rw [others r.1 fun same => fresh (same ▸ List.mem_map_of_mem member)]
      exact current r (List.mem_cons_of_mem _ member)
    rw [List.map_cons, dismantles_cons]
    constructor
    · rintro ⟨db', run⟩
      obtain ⟨mid, first, last⟩ := seq_eq_ok.mp run
      exact ⟨(deleteJob_iff env ok stored).mp ⟨mid, first⟩, (rest mid first).mp ⟨db', last⟩⟩
    · rintro ⟨free, later⟩
      obtain ⟨mid, first⟩ := (deleteJob_iff env ok stored).mpr free
      obtain ⟨db', last⟩ := (rest mid first).mpr later
      exact ⟨db', seq_eq_ok.mpr ⟨mid, first, last⟩⟩

/-- After the deletions exactly the rows of the list are gone. -/
theorem deletes_jobs {rows : List (Uuid × Job)} (run : forEach (deleteJob env) rows db = .ok db') (id : Uuid) :
    db'.jobs.get? id = if id ∈ rows.map Prod.fst then none else db.jobs.get? id := by
  induction rows generalizing db with
  | nil =>
    cases run
    simp
  | cons row rows ih =>
    obtain ⟨mid, first, last⟩ := seq_eq_ok.mp run
    rw [ih last, (deleteJob_jobs first : mid.jobs = db.jobs.remove row.1), Table.get?_remove, List.map_cons]
    by_cases same : id = row.1
    · simp [same]
    · simp only [List.mem_cons, same, false_or, if_false]

end Dismantling

section Pass

theorem finishedLe_order : Table.RowOrder finishedLe where
  total a b := by
    simp only [finishedLe, Bool.or_eq_true, Bool.and_eq_true, decide_eq_true_eq]
    have := Nat.le_total a.1 b.1
    rcases lt_trichotomy (a.2.finishedAt.getD 0) (b.2.finishedAt.getD 0) with h | h | h <;> grind
  trans a b c first second := by
    simp only [finishedLe, Bool.or_eq_true, Bool.and_eq_true, decide_eq_true_eq] at first second ⊢
    have keys : a.1 ≤ b.1 → b.1 ≤ c.1 → a.1 ≤ c.1 := Nat.le_trans
    grind
  key a b below above := by
    simp only [finishedLe, Bool.or_eq_true, Bool.and_eq_true, decide_eq_true_eq] at below above
    have keys : a.1 ≤ b.1 → b.1 ≤ a.1 → a.1 = b.1 := Nat.le_antisymm
    grind

/-- How many jobs of the group finished before this one, in all queues together. -/
def finishedAhead (g : StatusGroup) (c : Core) (id : Uuid) (job : Job) : ℕ :=
  c.jobs.ahead (fun _ j => g.covers j.status) finishedLe (id, job)

/-- The pass is to delete the job: it is past its retention, and few enough jobs of its group finished before it. -/
def Chosen (env : Env) (g : StatusGroup) (db : Db) (id : Uuid) (job : Job) : Prop :=
  expiredIn env g db job.toJobRow = true ∧ finishedAhead g db.toCore id job < g.limit

theorem mem_retentionVictims : (id, job) ∈ retentionVictims env g db ↔
    db.jobs.get? id = some job ∧ Chosen env g db id job := by
  simp only [retentionVictims, retentionCandidates, List.mem_insertionSort, List.mem_filter,
    Table.mem_window finishedLe_order, Chosen, finishedAhead]
  constructor
  · rintro ⟨⟨⟨stored, -⟩, near⟩, expired⟩
    exact ⟨stored, expired, near⟩
  · rintro ⟨stored, expired, near⟩
    have covers : g.covers job.status = true := by
      simp only [expiredIn, Bool.and_eq_true] at expired
      exact expired.1
    exact ⟨⟨⟨stored, covers⟩, near⟩, expired⟩

theorem mem_victim_keys (env : Env) (g : StatusGroup) (stored : db.jobs.get? id = some job) :
    id ∈ (retentionVictims env g db).map Prod.fst ↔ Chosen env g db id job := by
  constructor
  · intro member
    obtain ⟨⟨other, row⟩, victim, rfl⟩ := List.mem_map.mp member
    obtain ⟨there, chosen⟩ := mem_retentionVictims.mp victim
    cases stored.symm.trans there
    exact chosen
  · intro chosen
    exact List.mem_map_of_mem (mem_retentionVictims.mpr ⟨stored, chosen⟩)

/-- Nothing stops the pass: every horizon that it computes is a timestamp, and the jobs that it is to delete can go in
the order in which it reaches them. -/
structure Clearable (env : Env) (g : StatusGroup) (db : Db) : Prop where
  timed : ∀ r ∈ retentionCandidates g db.toCore, horizonOk env g db r.2.toJobRow = true
  dismantles : Dismantles db.deps ((retentionVictims env g db).map Prod.fst)

/-- A pass deletes all that it is to delete and counts it, or nothing at all. -/
structure Pass (env : Env) (g : StatusGroup) (db : Db) (count : Option ℤ) (db' : Db) : Prop where
  cleared : Clearable env g db → count = some ((retentionVictims env g db).length : ℤ) ∧
    ∀ id job, db.jobs.get? id = some job → (db'.jobs.get? id = some job ∧ ¬Chosen env g db id job) ∨
      db'.jobs.get? id = none ∧ Chosen env g db id job
  held : ¬Clearable env g db → count = none ∧ db' = db
  fewer : ∀ id, db.jobs.get? id = none → db'.jobs.get? id = none

theorem retentionStep_iff (env : Env) (g : StatusGroup) (ok : Sound db.toCore) : (∃ n db', retentionStep env g db = .ok (n, db')) ↔ Clearable env g db := by
  have loop := deletes_iff env ok (retentionVictims_keys env g db)
    (fun r member => (retentionVictims_mem member).1)
    fun r member => StatusGroup.covers_terminal (retentionVictims_mem member).2.1
  simp only [retentionStep, seq_eq_ok, ensure_eq_ok, List.all_eq_true]
  constructor
  · rintro ⟨n, db', -, timed, last, run, -⟩
    exact ⟨timed, loop.mp ⟨last, run⟩⟩
  · rintro ⟨timed, dismantles⟩
    obtain ⟨last, run⟩ := loop.mpr dismantles
    exact ⟨_, last, (), timed, last, run, rfl⟩

theorem retentionStep_rows {n : ℤ} (run : retentionStep env g db = .ok (n, db')) :
    n = (retentionVictims env g db).length ∧
      ∀ id, db'.jobs.get? id = if id ∈ (retentionVictims env g db).map Prod.fst then none else db.jobs.get? id := by
  simp only [retentionStep, seq_eq_ok] at run
  obtain ⟨-, -, last, loop, finish⟩ := run
  cases finish
  exact ⟨rfl, deletes_jobs loop⟩

theorem retention_passes (ok : Sound db.toCore) :
    Pass env g db (inBlock (retentionStep env g) db).1 (inBlock (retentionStep env g) db).2 := by
  have clears := retentionStep_iff env g ok
  unfold inBlock
  split
  · rename_i n next run
    obtain ⟨counted, rows⟩ := retentionStep_rows run
    refine ⟨fun _ => ⟨congrArg some counted, fun id job stored => ?_⟩, fun stuck => ?_, fun id absent => ?_⟩
    · have gone := mem_victim_keys env g stored
      rw [rows id]
      by_cases chosen : Chosen env g db id job
      · exact .inr ⟨if_pos (gone.mpr chosen), chosen⟩
      · exact .inl ⟨(if_neg (mt gone.mp chosen)).trans stored, chosen⟩
    · exact absurd (clears.mp ⟨n, next, run⟩) stuck
    · rw [rows id]
      split_ifs
      · rfl
      · exact absent
  · rename_i e run
    refine ⟨fun clear => ?_, fun _ => ⟨rfl, rfl⟩, fun id absent => absent⟩
    obtain ⟨n, next, run'⟩ := clears.mpr clear
    cases run.symm.trans run'

/-- A pass removes jobs of its group only, and configures nothing. -/
theorem retention_keeps (env : Env) (g : StatusGroup) (db : Db) : (inBlock (retentionStep env g) db).2.queues = db.queues ∧
    ∀ id job, g.covers job.status = false →
      ((inBlock (retentionStep env g) db).2.jobs.get? id = some job ↔ db.jobs.get? id = some job) := by
  have path : Path env deletions db (inBlock (retentionStep env g) db).2 := inBlock_path fun n next run => retentionStep_path run
  refine ⟨path.kept.2.1, fun id job other => ?_⟩
  unfold inBlock
  split
  · rename_i n next run
    rw [(retentionStep_rows run).2 id]
    split_ifs with victim
    · obtain ⟨⟨_, row⟩, member, rfl⟩ := List.mem_map.mp victim
      obtain ⟨there, covers, -⟩ := retentionVictims_mem member
      constructor
      · intro here
        cases here
      · intro stored
        cases stored.symm.trans there
        exact absurd covers (by simp [other])
    · rfl
  · rfl

/-- What the second pass is to delete does not depend on the first. -/
theorem chosen_failed_after_finished :
    Chosen env .failed (inBlock (retentionStep env .finished) db).2 id job ↔ Chosen env .failed db id job := by
  obtain ⟨queues, rows⟩ := retention_keeps env .finished db
  have counted : finishedAhead .failed (inBlock (retentionStep env .finished) db).2.toCore id job =
      finishedAhead .failed db.toCore id job := by
    apply Table.count_congr
    intro other
    apply exists_congr
    intro row
    by_cases failed : StatusGroup.covers .failed row.status = true
    · have apart : StatusGroup.covers .finished row.status = false := by
        cases status : row.status <;> simp_all [StatusGroup.covers]
      rw [rows other row apart]
    · simp [failed]
  unfold Chosen expiredIn
  rw [queues, counted]

theorem pruneAdmissions_jobs : (inBlock (pruneAdmissions env) db).2.jobs = db.jobs := by
  unfold inBlock
  split
  · rename_i n next run
    simp only [pruneAdmissions, seq_eq_ok] at run
    obtain ⟨-, -, finish⟩ := run
    cases finish
    rfl
  · rfl

/-- The passes over ended jobs in a call of the janitor. -/
theorem janitor_reports {report : JanitorReport} (run : janitor env db = .ok (report, db')) :
    report.terminalDeleted = (inBlock (retentionStep env .finished) db).1 ∧
    report.failedDeleted = (inBlock (retentionStep env .failed) (inBlock (retentionStep env .finished) db).2).1 ∧
    db'.jobs = (inBlock (retentionStep env .failed) (inBlock (retentionStep env .finished) db).2).2.jobs := by
  have history (db : Db) : (pruneDecisions env (pruneOccurrences env (inBlock (pruneEvents env) db).2)).jobs = db.jobs := rfl
  simp only [janitor, seq_eq_ok] at run
  obtain ⟨-, -, finish⟩ := run
  cases finish
  refine ⟨rfl, rfl, ?_⟩
  rw [history, pruneAdmissions_jobs]

theorem janitor_of_attested (db : Db) (attested : env.attested = true) : ∃ report db', janitor env db = .ok (report, db') :=
  ⟨_, _, seq_eq_ok.mpr ⟨(), ensure_eq_ok.mpr attested, rfl⟩⟩

/-- A call of the janitor never raises: it makes its two passes over ended jobs, and the second decides as if the first
had not been. -/
theorem janitor_passes (reachable : System.Reachable site allowed s) (attested : env.attested = true) :
    ∃ report mid db', janitor env s.db = .ok (report, db') ∧ Pass env .finished s.db report.terminalDeleted mid ∧
      (∀ id job, Chosen env .failed mid id job ↔ Chosen env .failed s.db id job) ∧
      ∃ last, Pass env .failed mid report.failedDeleted last ∧ db'.jobs = last.jobs := by
  have ok := reachable.sound
  have path : Path env deletions s.db (inBlock (retentionStep env .finished) s.db).2 :=
    inBlock_path fun n next run => retentionStep_path run
  obtain ⟨report, db', run⟩ := janitor_of_attested s.db attested
  obtain ⟨first, second, rows⟩ := janitor_reports run
  refine ⟨report, (inBlock (retentionStep env .finished) s.db).2, db', run, ?_, ?_, ?_⟩
  · rw [first]
    exact retention_passes ok
  · intro id job
    exact chosen_failed_after_finished
  · refine ⟨_, ?_, rows⟩
    rw [second]
    exact retention_passes (ok.steps path.steps)

/-- A job is enqueued and cancelled at once. -/
def cancelledJob : List (Time × Command) :=
  [(0, .ensureQueue (some "q") none), (0, .enqueue (.simple "q")), (0, .cancelJob 2 (some "w") (some "r"))]

/-- A job that was cancelled two days ago. -/
theorem janitor_passes_cancelled : ∃ (s : System) (job : Job) (report : JanitorReport) (mid db' : Db),
    s.db.jobs.get? 2 = some job ∧ job.status = .cancelled ∧
      janitor (.alone .digits (hours 49) 9) s.db = .ok (report, db') ∧
      Pass (.alone .digits (hours 49) 9) .finished s.db report.terminalDeleted mid := by
  have played : System.plays .digits cancelledJob (.installed .digits 0)
      (fun s => (s.db.jobs.get? 2).any fun job => job.status = .cancelled) = true := by
    decide +kernel
  obtain ⟨s, run, there⟩ := System.plays_run anyCall played fun _ _ _ => trivial
  obtain ⟨job, stored, status⟩ := (Option.any_eq_true _ _).mp there
  have attested : (Env.alone .digits (hours 49) 9).attested = true := rfl
  obtain ⟨report, mid, db', call, first, -⟩ := janitor_passes ⟨0, run⟩ attested
  exact ⟨s, job, report, mid, db', stored, of_decide_eq_true status, call, first⟩

end Pass

section Keeping

/-- A row that a call of the janitor drops was due: a job past its retention, or an occurrence without a job that is
90 days old and behind the cursor of its schedule. -/
structure Sheds (env : Env) (db db' : Db) : Prop where
  queues : db'.queues = db.queues
  schedules : db'.scheduling.schedules = db.scheduling.schedules
  jobs : ∀ id job, db.jobs.get? id = some job → db'.jobs.get? id = some job ∨ ∃ g, expiredIn env g db job.toJobRow = true
  occurrences : ∀ key o, db.scheduling.occurrences.get? key = some o → db'.scheduling.occurrences.get? key = some o ∨
    o.createdAt < env.now - days 90 ∧ o.jobId = none ∧
      ∃ s, db.scheduling.schedules.get? key.1 = some s ∧ key.2 < s.nextFireAt

theorem Sheds.of_eq (queues : db'.queues = db.queues) (scheduling : db'.scheduling = db.scheduling)
    (jobs : ∀ id job, db.jobs.get? id = some job → db'.jobs.get? id = some job) : Sheds env db db' := by
  refine ⟨queues, by rw [scheduling], ?_, ?_⟩
  · intro id job stored
    exact .inl (jobs id job stored)
  · intro key o stored
    rw [scheduling]
    exact .inl stored

theorem Sheds.refl (env : Env) (db : Db) : Sheds env db db := .of_eq rfl rfl fun _ _ h => h

theorem Sheds.trans {mid : Db} (first : Sheds env db mid) (second : Sheds env mid db') : Sheds env db db' := by
  refine ⟨second.queues.trans first.queues, second.schedules.trans first.schedules, ?_, ?_⟩
  · intro id job stored
    obtain there | expired := first.jobs id job stored
    · refine (second.jobs id job there).imp_right ?_
      rintro ⟨g, expired⟩
      refine ⟨g, ?_⟩
      unfold expiredIn at expired ⊢
      rwa [first.queues] at expired
    · exact .inr expired
  · intro key o stored
    obtain there | due := first.occurrences key o stored
    · refine (second.occurrences key o there).imp_right ?_
      rw [first.schedules]
      exact fun due => due
    · exact .inr due

theorem retention_sheds (g : StatusGroup) (db : Db) : Sheds env db (inBlock (retentionStep env g) db).2 := by
  have path : Path env deletions db (inBlock (retentionStep env g) db).2 := inBlock_path fun n next run => retentionStep_path run
  have scheduling := path.kept.1
  refine ⟨path.kept.2.1, by rw [scheduling], ?_, ?_⟩
  · intro id job stored
    unfold inBlock
    split
    · rename_i n next run
      rw [(retentionStep_rows run).2 id]
      split_ifs with victim
      · exact .inr ⟨g, ((mem_victim_keys env g stored).mp victim).1⟩
      · exact .inl stored
    · exact .inl stored
  · intro key o stored
    rw [scheduling]
    exact .inl stored

theorem history_sheds (db : Db) : Sheds env db (pruneDecisions env (pruneOccurrences env db)) := by
  refine ⟨rfl, rfl, fun id job stored => .inl stored, ?_⟩
  intro key o stored
  simp only [pruneDecisions, pruneOccurrences, Table.get?_keep, stored, Option.filter_some]
  split_ifs with kept
  · exact .inl rfl
  · simp only [decide_not, Bool.not_eq_eq_eq_not, Bool.not_true, decide_eq_false_iff_not, not_not] at kept
    obtain ⟨old, free, behind⟩ := kept
    obtain ⟨s, found, past⟩ := (Option.any_eq_true _ _).mp behind
    exact .inr ⟨old, free, s, found, of_decide_eq_true past⟩

theorem janitor_sheds {report : JanitorReport} (run : janitor env db = .ok (report, db')) : Sheds env db db' := by
  have admissions (db : Db) : Sheds env db (inBlock (pruneAdmissions env) db).2 := by
    unfold inBlock
    split
    · rename_i n next run
      simp only [pruneAdmissions, seq_eq_ok] at run
      obtain ⟨-, -, finish⟩ := run
      cases finish
      exact .of_eq rfl rfl fun _ _ h => h
    · exact .refl _ _
  have events (db : Db) : Sheds env db (inBlock (pruneEvents env) db).2 := .of_eq rfl rfl fun _ _ h => h
  simp only [janitor, seq_eq_ok] at run
  obtain ⟨-, -, finish⟩ := run
  cases finish
  refine (retention_sheds .finished _).trans ((retention_sheds .failed _).trans ?_)
  exact (admissions _).trans ((events _).trans (history_sheds _))

section Fire

variable {claim : ScheduleClaim} {decision : Uuid} {r : ScheduleRow}

theorem performFired_sheds {occurrence : Uuid} {due : Time} {late : ℤ} {made : Option Uuid} {outcome : OccurrenceOutcome}
    (run : performFired env id r claim occurrence due late outcome db = .ok (made, db')) : Sheds env db db' := by
  unfold performFired performOccurrence at run
  split at run
  · split at run
    · simp only [seq_eq_ok] at run
      obtain ⟨-, -, ⟨report, last⟩, clean, finish⟩ := run
      cases finish
      exact janitor_sheds clean
    · simp only [seq_eq_ok] at run
      obtain ⟨args, -, ⟨⟨created, fresh⟩, last⟩, enqueued, finish⟩ := run
      cases finish
      have kept := (enqueue_path enqueued).kept
      exact .of_eq kept.2.1 kept.1 fun _ _ stored => (enqueue_enqueued enqueued).row_stays stored
  · cases run
    exact .refl _ _

theorem fireOccurrence_sheds {due : Time} {counts counts' : FireCounts}
    (run : fireOccurrence env id r claim decision due counts db = .ok (counts', db')) : Sheds env db db' := by
  unfold fireOccurrence at run
  split at run
  · cases run
    exact .refl _ _
  · rename_i free
    have free : db.scheduling.occurrences.get? (id, due) = none := by simpa using free
    simp only [newUuid, seq_eq_ok] at run
    obtain ⟨late, -, ⟨made, last⟩, perform, finish⟩ := run
    cases finish
    have done := performFired_sheds perform
    refine ⟨done.queues, done.schedules, done.jobs, ?_⟩
    intro key o stored
    have apart : key ≠ (id, due) := by
      intro same
      rw [same, free] at stored
      cases stored
    obtain kept | due := done.occurrences key o ((Table.get?_put_of_ne _ _ apart).trans stored)
    · exact .inl ((Table.get?_put_of_ne _ _ apart).trans kept)
    · exact .inr due

theorem fireOccurrences_sheds {dues : List Time} {counts counts' : FireCounts}
    (run : fireOccurrences env id r claim decision dues counts db = .ok (counts', db')) : Sheds env db db' := by
  induction dues generalizing db counts with
  | nil =>
    cases run
    exact .refl _ _
  | cons due dues ih =>
    simp only [fireOccurrences, seq_eq_ok] at run
    obtain ⟨⟨counted, fired⟩, first, rest⟩ := run
    exact (fireOccurrence_sheds first).trans (ih rest)

/-- A fire call sheds rows only as the janitor of its schedule. -/
theorem fireSchedule_sheds {a : FireArgs} {answer : ActionResult} (run : fireSchedule env a db = .ok (answer, db')) :
    (∃ s, db.scheduling.schedules.get? a.scheduleId = some s ∧ maintains s.toScheduleRow ∧
      ∃ mid, Sheds env db mid ∧ db'.jobs = mid.jobs ∧ db'.scheduling.occurrences = mid.scheduling.occurrences) ∨
    (∀ id job, db.jobs.get? id = some job → db'.jobs.get? id = some job) ∧
      ∀ key o, db.scheduling.occurrences.get? key = some o → db'.scheduling.occurrences.get? key = some o := by
  simp only [fireSchedule, newUuid, seq_eq_ok] at run
  obtain ⟨-, -, -, -, run⟩ := run
  split at run
  · cases run
  · rename_i s found
    split at run
    · cases run
      exact .inr ⟨fun _ _ h => h, fun _ _ h => h⟩
    · split at run
      · cases run
        exact .inr ⟨fun _ _ h => h, fun _ _ h => h⟩
      · simp only [fireUnderClaim, seq_eq_ok] at run
        obtain ⟨outcome, -, ⟨counts, fired⟩, fire, written, write, finish⟩ := run
        cases finish
        obtain ⟨_, -, rfl⟩ := writeSchedule_frame write
        by_cases maintenance : maintains s.toScheduleRow
        · have sheds := fireOccurrences_sheds fire
          exact .inl ⟨s, found, maintenance, fired, ⟨sheds.queues, sheds.schedules, sheds.jobs, sheds.occurrences⟩, rfl, rfl⟩
        · have performs := fireOccurrences_performs fire
          exact .inr ⟨performs.rows maintenance, performs.kept maintenance⟩

end Fire

/-- The call is one of the janitor, or a fire call of a schedule that runs it. -/
def Command.cleans (db : Db) : Command → Prop
  | .janitor => True
  | .fireSchedule a => ∃ s, db.scheduling.schedules.get? a.scheduleId = some s ∧ maintains s.toScheduleRow
  | _ => False

variable {command : Command}

/-- A job that a call deletes was past its retention. -/
theorem Command.exec_deletes (run : command.exec env db = .ok db') (stored : db.jobs.get? id = some job)
    (gone : db'.jobs.get? id = none) : command.cleans db ∧ ∃ g, expiredIn env g db job.toJobRow = true := by
  obtain ⟨F, used, steps⟩ := (Command.exec_effect run).1
  by_cases deletes : Label.delete id ∈ F
  · have cleans := Command.footprints_delete used deletes
    cases command with
    | janitor =>
      obtain ⟨report, clean⟩ := map_snd_eq_ok.mp run
      obtain there | expired := (janitor_sheds clean).jobs id job stored
      · cases there.symm.trans gone
      · exact ⟨trivial, expired⟩
    | fireSchedule a =>
      obtain ⟨answer, fire⟩ := map_snd_eq_ok.mp run
      obtain ⟨s, found, maintenance, mid, sheds, jobs, -⟩ | ⟨rows, -⟩ := fireSchedule_sheds fire
      · refine ⟨⟨s, found, maintenance⟩, ?_⟩
        obtain there | expired := sheds.jobs id job stored
        · rw [jobs, there] at gone
          cases gone
        · exact expired
      · cases (rows id job stored).symm.trans gone
    | _ => cases cleans
  · have present : db.jobs.get? id ≠ none := by simp [stored]
    exact absurd gone (steps.present deletes present)

/-- An occurrence that a call drops has no job, is old, and is behind the cursor of its schedule. -/
theorem Command.exec_occurrences {key : Uuid × Time} {o : Occurrence} (run : command.exec env db = .ok db')
    (stored : db.scheduling.occurrences.get? key = some o) : db'.scheduling.occurrences.get? key = some o ∨
      command.cleans db ∧ o.createdAt < env.now - days 90 ∧ o.jobId = none ∧
        ∃ s, db.scheduling.schedules.get? key.1 = some s ∧ key.2 < s.nextFireAt := by
  have kept := (Command.exec_effect run).2.2
  have stays (same : db'.scheduling.occurrences = db.scheduling.occurrences) :
      db'.scheduling.occurrences.get? key = some o := by rw [same, stored]
  cases command with
  | fireSchedule a =>
    obtain ⟨answer, fire⟩ := map_snd_eq_ok.mp run
    obtain ⟨s, found, maintenance, mid, sheds, -, occurrences⟩ | ⟨-, rows⟩ := fireSchedule_sheds fire
    · rw [occurrences]
      exact (sheds.occurrences key o stored).imp_right fun due => ⟨⟨s, found, maintenance⟩, due⟩
    · exact .inl (rows key o stored)
  | janitor =>
    obtain ⟨report, clean⟩ := map_snd_eq_ok.mp run
    exact ((janitor_sheds clean).occurrences key o stored).imp_right fun due => ⟨trivial, due⟩
  | bindQueueAdmissionOwner | adoptQueueAdmissionOwner | rotateQueueAdmissionOwner => exact .inl (stays kept.2)
  | putSchedule | putManagedSchedule | setScheduleState | retireSchedule | setScheduleSmear | claimSchedules
  | scheduleError => exact .inl (stays kept.2.2)
  | _ => exact .inl (stays (congrArg (·.occurrences) kept.1))

/-- A call of the run cleaned up, and had the property. -/
def Cleaned (site : Site) (allowed : System → Env → Command → Prop) (s t : System) (P : Env → System → System → Prop) : Prop :=
  ∃ u v env command, System.Run site allowed s u ∧ allowed u env command ∧ System.Step site env command u v ∧
    System.Run site allowed v t ∧ command.cleans u.db ∧ P env u v

theorem Cleaned.later {u : System} {P : Env → System → System → Prop} (cleaned : Cleaned site allowed s t P)
    (more : System.Run site allowed t u) : Cleaned site allowed s u P := by
  obtain ⟨a, b, env, command, before, permitted, step, after, rest⟩ := cleaned
  exact ⟨a, b, env, command, before, permitted, step, after.trans more, rest⟩

/-- A job that was stored once and is gone does not come back. -/
theorem System.Run.stays_gone (reachable : System.Reachable site allowed s) (stored : s.db.jobs.get? id = some job)
    (run : System.Run site allowed s t) (gone : t.db.jobs.get? id = none) {u : System} (more : System.Run site allowed t u) :
    u.db.jobs.get? id = none := by
  have drawn : id < s.db.nextUuid := reachable.sound.minted.jobs id (by simp [stored])
  have later : s.db.nextUuid ≤ t.db.nextUuid := by
    refine run.relates (R := fun s t => s.db.nextUuid ≤ t.db.nextUuid) (fun _ => le_rfl) le_trans fun _ step => ?_
    obtain ⟨F, -, steps⟩ := step.steps
    exact steps.nextUuid_le
  have both : id < u.db.nextUuid ∧ u.db.jobs.get? id = none := by
    refine more.induction (I := fun u => id < u.db.nextUuid ∧ u.db.jobs.get? id = none) ⟨drawn.trans_le later, gone⟩ ?_
    rintro v w env command ⟨below, absent⟩ - step
    obtain ⟨F, used, steps⟩ := step.steps
    refine ⟨below.trans_le steps.nextUuid_le, steps.absent (fun p member => ?_) absent⟩
    exact absurd (Command.footprints_enter used member) below.not_ge
  exact both.2

/-- A job that is gone after a run was deleted by one call of it that cleans up, ended and past the retention of its
queue at that time, and for good. -/
theorem jobs_go_past_their_retention (reachable : System.Reachable site allowed s) (run : System.Run site allowed s t)
    (stored : s.db.jobs.get? id = some job) (gone : t.db.jobs.get? id = none) :
    Cleaned site allowed s t fun env u v => (∃ row g, u.db.jobs.get? id = some row ∧
      expiredIn env g u.db row.toJobRow = true) ∧ ∀ w, System.Run site allowed v w → w.db.jobs.get? id = none := by
  induction run with
  | start => cases stored.symm.trans gone
  | @step t u env command run permitted step ih =>
    have one : System.Run site allowed t u := .step .start permitted step
    cases before : t.db.jobs.get? id with
    | none => exact (ih before).later one
    | some row =>
      obtain ⟨cleans, g, expired⟩ := Command.exec_deletes step.exec before gone
      refine ⟨t, u, env, command, run, permitted, step, .start, cleans, ⟨row, g, before, expired⟩, ?_⟩
      intro w more
      exact System.Run.stays_gone reachable stored (run.trans one) gone more

/-- The job that was cancelled two days ago goes. -/
theorem jobs_go_past_their_retention_cancelled : ∃ (s t : System) (job : Job), s.db.jobs.get? 2 = some job ∧
    t.db.jobs.get? 2 = none ∧ Cleaned .digits anyCall s t fun env u v => (∃ row g, u.db.jobs.get? 2 = some row ∧
      expiredIn env g u.db row.toJobRow = true) ∧ ∀ w, System.Run .digits anyCall v w → w.db.jobs.get? 2 = none := by
  have played : System.plays .digits cancelledJob (.installed .digits 0) (fun s => (s.db.jobs.get? 2).isSome &&
      System.plays .digits [(hours 49, .janitor)] s fun t => (t.db.jobs.get? 2).isNone) = true := by
    decide +kernel
  obtain ⟨s, run, there⟩ := System.plays_run anyCall played fun _ _ _ => trivial
  obtain ⟨stored, rest⟩ := (Bool.and_eq_true _ _).mp there
  obtain ⟨job, stored⟩ := Option.isSome_iff_exists.mp stored
  obtain ⟨t, more, gone⟩ := System.plays_run anyCall rest fun _ _ _ => trivial
  have gone : t.db.jobs.get? 2 = none := Option.isNone_iff_eq_none.mp gone
  exact ⟨s, t, job, stored, gone, jobs_go_past_their_retention ⟨0, run⟩ more stored gone⟩

/-- A recorded occurrence stays as it is over any run, if it has a job for ever, and otherwise until a call that cleans up
finds it ninety days old and behind the cursor of its schedule. -/
theorem occurrences_stay {key : Uuid × Time} {o : Occurrence} (run : System.Run site allowed s t)
    (stored : s.db.scheduling.occurrences.get? key = some o) : t.db.scheduling.occurrences.get? key = some o ∨
      o.jobId = none ∧ Cleaned site allowed s t fun env u _ => u.db.scheduling.occurrences.get? key = some o ∧
        o.createdAt < env.now - days 90 ∧ ∃ r, u.db.scheduling.schedules.get? key.1 = some r ∧ key.2 < r.nextFireAt := by
  induction run with
  | start => exact .inl stored
  | @step t u env command run permitted step ih =>
    have one : System.Run site allowed t u := .step .start permitted step
    obtain there | ⟨free, cleaned⟩ := ih
    · obtain kept | ⟨cleans, old, free, behind⟩ := Command.exec_occurrences step.exec there
      · exact .inl kept
      · exact .inr ⟨free, t, u, env, command, run, permitted, step, .start, cleans, there, old, behind⟩
    · exact .inr ⟨free, cleaned.later one⟩

/-- An occurrence that fired a job is there after half a year and a call of the janitor. -/
theorem occurrences_stay_fired : ∃ (s t : System) (o : Occurrence), o.jobId ≠ none ∧
    System.plays .digits [(days 180, .janitor)] s (fun _ => true) = true ∧ System.Run .digits anyCall s t ∧
    s.db.scheduling.occurrences.get? (2, 60000000) = some o ∧ t.db.scheduling.occurrences.get? (2, 60000000) = some o := by
  have played : System.plays .digits (firstMinute ++ [(60000000, .fireSchedule firstFire)]) (.installed .digits 0) (fun s =>
      ((s.db.scheduling.occurrences.get? (2, 60000000)).any fun o => o.jobId ≠ none) &&
      System.plays .digits [(days 180, .janitor)] s fun _ => true) = true := by
    decide +kernel
  obtain ⟨s, -, there⟩ := System.plays_run anyCall played fun _ _ _ => trivial
  obtain ⟨stored, rest⟩ := (Bool.and_eq_true _ _).mp there
  obtain ⟨o, stored, job⟩ := (Option.any_eq_true _ _).mp stored
  obtain ⟨t, more, -⟩ := System.plays_run anyCall rest fun _ _ _ => trivial
  have linked : o.jobId ≠ none := of_decide_eq_true job
  refine ⟨s, t, o, linked, rest, more, stored, ?_⟩
  apply (occurrences_stay more stored).resolve_right
  rintro ⟨free, -⟩
  exact linked free

end Keeping

end Taskq
