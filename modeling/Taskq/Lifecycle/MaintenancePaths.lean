import Taskq.Lifecycle.AdmissionPaths
import Taskq.Lifecycle.Bookings
import Taskq.Model.Fire

/-! The paths of the maintenance entry points, and of a fired schedule, which runs one of them or
admits a job. -/
namespace Taskq
open Relational

variable {env : Env} {S : Set Label} {db db' : Db}

theorem inBlock_path {pass : Db → Call (ℤ × Db)}
    (one : ∀ n db', pass db = .ok (n, db') → Path env S db db') : Path env S db (inBlock pass db).2 := by
  unfold inBlock
  split
  · rename_i n next run
    exact one n next run
  · exact .refl _

section Tick

/-- Blocked jobs that a sweep over rows past their time to live may reach. -/
def ttlBlocked (env : Env) (c : Core) : Set Uuid :=
  {id | ∃ job, c.jobs.get? id = some job ∧ job.status = .blocked ∧
    job.expiresAt.any (· ≤ env.now) = true}

/-- Blocked jobs with a cancel request. -/
def askedBlocked (c : Core) : Set Uuid :=
  {id | ∃ job, c.jobs.get? id = some job ∧ job.status = .blocked ∧
    job.cancelRequestedAt.isSome = true}

theorem ttlExpired_blocked (env : Env) (db : Db) :
    blockedOf (ttlExpired env db.toCore) db ⊆ ttlBlocked env db.toCore := by
  rintro id ⟨member, job, stored, blocked⟩
  simp only [ttlExpired, List.mem_map, Prod.exists, exists_and_right, exists_eq_right,
    Table.mem_selectBy, decide_eq_true_eq] at member
  obtain ⟨same, here, -, due, -⟩ := member
  cases here.symm.trans stored
  exact ⟨_, stored, blocked, due⟩

theorem cancelStragglers_blocked (env : Env) (db : Db) :
    blockedOf (cancelStragglers env db.toCore) db ⊆ askedBlocked db.toCore := by
  rintro id ⟨member, job, stored, blocked⟩
  simp only [cancelStragglers, List.mem_map, Prod.exists, exists_and_right, exists_eq_right,
    Table.mem_selectBy, decide_eq_true_eq] at member
  obtain ⟨same, here, asked, -⟩ := member
  cases here.symm.trans stored
  exact ⟨_, stored, blocked, asked⟩

theorem sweeps_mono {B B' : Set Uuid} (wider : B ⊆ B') : sweeps B ⊆ sweeps B' := by
  rintro l (⟨id, old, rfl, inside⟩ | cascade)
  · exact .inl ⟨id, old, rfl, fun h => wider (inside h)⟩
  · exact .inr cascade

/-- A job that is blocked after reclaims and sweeps was blocked before, with the same row. -/
theorem blocked_before {A B : Set Uuid} {c d : Core} (steps : Steps (reclaims A ∪ sweeps B) c d) {id : Uuid}
    {job : Job} (stored : d.jobs.get? id = some job) (blocked : job.status = .blocked) :
    c.jobs.get? id = some job := by
  refine steps.row (R := fun r s => ∀ job, s = some job → job.status = .blocked → r = some job) id
    (fun _ _ h _ => h) (fun first second job h k => first job (second job h k) k)
    (fun {l r s} member move job present blocked => ?_) job stored blocked
  cases move with
  | same => exact present
  | change label _ _ step =>
    cases present
    have lands := step.not_blocked
    obtain (⟨_, -, rfl | rfl | rfl⟩ | ⟨_, rfl⟩) | (⟨_, _, rfl, -⟩ | ⟨_, rfl⟩) := member <;>
    · obtain ⟨rfl, rfl⟩ := Label.change.inj label
      exact absurd blocked (lands (by simp [Change.mayBlock]))
  | delete => cases present
  | enter label =>
    obtain (⟨_, -, rfl | rfl | rfl⟩ | ⟨_, rfl⟩) | (⟨_, _, rfl, -⟩ | ⟨_, rfl⟩) := member <;> cases label

/-- The labels of a tick. -/
def ticks (late blocked : Set Uuid) : Set Label :=
  reclaims late ∪ sweeps blocked ∪ withdrawals ∪ (promotions ∪ dependents) ∪ finalizations

/-- A tick whose sweep over expired rows meets blocked jobs of a set only. -/
theorem tick_path_of {limit : Option ℤ} {report : TickReport} {B : Set Uuid}
    (run : tick env limit db = .ok (report, db'))
    (ttl : env.tryLock "taskq:tick" = true →
      Path env (reclaims (lapsed env db.toCore)) db (inBlock (reapExpired env limit) db).2 → ∀ n next,
      expireTtl env (some 200) (inBlock (reapExpired env limit) db).2 = .ok (n, next) →
        Path env (sweeps B) (inBlock (reapExpired env limit) db).2 next)
    (asked : askedBlocked db.toCore ⊆ B) : Path env (ticks (lapsed env db.toCore) B) db db' := by
  simp only [tick, seq_eq_ok] at run
  obtain ⟨-, -, -, -, run⟩ := run
  split at run
  · cases run
    exact .refl _
  · rename_i locked
    cases run
    have reclaimed : Path env (reclaims (lapsed env db.toCore)) db (inBlock (reapExpired env limit) db).2 :=
      inBlock_path fun n next pass => reapExpired_path pass
    have ttl := ttl (by simpa using locked) reclaimed
    have reaped : Path env (reclaims (lapsed env db.toCore) ∪ sweeps B) db (inBlock (reapExpired env limit) db).2 :=
      reclaimed.mono Set.subset_union_left
    generalize (inBlock (reapExpired env limit) db).2 = db₁ at reaped ttl ⊢
    have swept : Path env (reclaims (lapsed env db.toCore) ∪ sweeps B) db (inBlock (expireTtl env (some 200)) db₁).2 :=
      reaped.trans (inBlock_path fun n next pass => (ttl n next pass).mono Set.subset_union_right)
    generalize (inBlock (expireTtl env (some 200)) db₁).2 = db₂ at swept ⊢
    have settled : Path env (reclaims (lapsed env db.toCore) ∪ sweeps B) db
        (inBlock (finalizeCancelStragglers env (some 50)) db₂).2 := by
      refine swept.trans (inBlock_path fun n next pass => (finalizeCancelStragglers_path pass).mono ?_)
      refine (sweeps_mono fun id member => asked ?_).trans Set.subset_union_right
      obtain ⟨job, stored, blocked, asked⟩ := cancelStragglers_blocked _ _ member
      exact ⟨job, blocked_before swept.steps stored blocked, blocked, asked⟩
    generalize (inBlock (finalizeCancelStragglers env (some 50)) db₂).2 = db₃ at settled ⊢
    refine (settled.mono fun l h => .inl (.inl (.inl h))).trans ?_
    have advanced : Path env (ticks (lapsed env db.toCore) B) db₃ (inBlock (advanceWorkflowCancellations env (some 100)) db₃).2 :=
      inBlock_path fun n next pass => (advanceWorkflowCancellations_path pass).mono
        fun l h => .inl (.inl (.inr h))
    generalize (inBlock (advanceWorkflowCancellations env (some 100)) db₃).2 = db₄ at advanced ⊢
    have promoted : Path env (ticks (lapsed env db.toCore) B) db₄ (inBlock (finalizeDepStragglers env (some 100)) db₄).2 :=
      inBlock_path fun n next pass => (finalizeDepStragglers_path pass).mono
        fun l h => .inl (.inr h)
    exact (advanced.trans promoted).trans
      (inBlock_path fun n next pass => (finalizeWorkflows_path pass).mono fun l h => .inr h)

theorem tick_path {limit : Option ℤ} {report : TickReport}
    (run : tick env limit db = .ok (report, db')) :
    Path env (ticks (lapsed env db.toCore) (ttlBlocked env db.toCore ∪ askedBlocked db.toCore)) db db' := by
  refine tick_path_of run (fun _ reclaimed n next pass => (expireTtl_path pass).mono ?_) Set.subset_union_right
  refine sweeps_mono fun id member => .inl ?_
  obtain ⟨job, stored, blocked, due⟩ := ttlExpired_blocked _ _ member
  have steps := reclaimed.steps.mono (Set.subset_union_left (t := sweeps ∅))
  exact ⟨job, blocked_before steps stored blocked, blocked, due⟩

end Tick

section Retention

/-- The labels of the janitor. -/
def deletions : Set Label := {l | ∃ id, l = .delete id}

theorem countDeleted_frame (env : Env) (old : JobRow) (db : Db) :
    ∃ counters, countDeleted env old db = { db with queueCounters := counters } := by
  unfold countDeleted
  split <;> exact ⟨_, rfl⟩

theorem deleteJob_path {victim : Uuid × Job} (run : deleteJob env victim db = .ok db')
    (stored : db.jobs.get? victim.1 = some victim.2) (terminal : victim.2.status.terminal = true) :
    Path env deletions db db' ∧
      ∀ other, other ≠ victim.1 → db'.jobs.get? other = db.jobs.get? other := by
  obtain ⟨id, job⟩ := victim
  have logs := Logs.single (.delete stored run)
  simp only [deleteJob, seq_eq_ok, ensure_eq_ok] at run
  obtain ⟨-, free, counts, counted, finish⟩ := run
  cases finish
  obtain ⟨counters, same⟩ := countDeleted_frame env job.toJobRow { db with
    jobs := db.jobs.remove id
    attempts := db.attempts.keep fun _ a => a.jobId ≠ id
    deps := db.deps.filter fun e => e.1 ≠ id }
  rw [same] at counted logs ⊢
  refine ⟨.single (.delete stored terminal (fun e edge apart => ?_) counted) ⟨id, rfl⟩ rfl logs,
    fun other apart => ?_⟩
  · exact free e (by simp [edge, apart])
  · exact (Table.get?_remove _ _ _).trans (if_neg apart)

/-- A victim of retention is stored, terminal in its group, and past the horizon of its queue. -/
theorem retentionVictims_mem {g : StatusGroup} {victim : Uuid × Job}
    (member : victim ∈ retentionVictims env g db) :
    db.jobs.get? victim.1 = some victim.2 ∧ g.covers victim.2.status = true ∧
      expiredIn env g db victim.2.toJobRow = true := by
  simp only [retentionVictims, List.mem_insertionSort, List.mem_filter] at member
  obtain ⟨chosen, expired⟩ := member
  obtain ⟨stored, covers⟩ := Table.mem_selectBy.mp (List.mem_of_mem_take chosen)
  exact ⟨stored, covers, expired⟩

theorem retentionVictims_keys (env : Env) (g : StatusGroup) (db : Db) :
    ((retentionVictims env g db).map Prod.fst).Nodup := by
  refine ((List.perm_insertionSort _ _).map _).nodup_iff.mpr ?_
  refine List.Nodup.sublist (List.filter_sublist.map _) ?_
  exact (Table.selectBy_keys_nodup _ _ _).sublist ((List.take_sublist _ _).map _)

theorem StatusGroup.covers_terminal {g : StatusGroup} {s : JobStatus} (covers : g.covers s = true) :
    s.terminal = true := by
  cases g <;> cases s <;> simp_all [StatusGroup.covers, JobStatus.terminal]

theorem retentionStep_path {g : StatusGroup} {n : ℤ}
    (run : retentionStep env g db = .ok (n, db')) : Path env deletions db db' := by
  simp only [retentionStep, seq_eq_ok] at run
  obtain ⟨-, -, last, loop, finish⟩ := run
  cases finish
  refine forEach_snapshot (retentionVictims_keys env g db) (fun r member => ?_)
    (fun r member db db' one stored => ?_) loop
  · exact (retentionVictims_mem member).1
  · exact deleteJob_path one stored
      (StatusGroup.covers_terminal (retentionVictims_mem member).2.1)

/-- The janitor drops admissions that are due and to which no job refers. -/
theorem pruneAdmissions_prunes {n : ℤ} (run : pruneAdmissions env db = .ok (n, db')) :
    Prunes env db db' ∧ Registers env deletions db db' := by
  simp only [pruneAdmissions, seq_eq_ok, ensure_eq_ok] at run
  obtain ⟨-, unused, finish⟩ := run
  cases finish
  refine ⟨.drop _ rfl (fun id a chosen stored => ?_) (fun jobId job stored id chosen carries => ?_) rfl,
    Path.refl db⟩
  · obtain ⟨⟨_, _⟩, taken, rfl⟩ := List.mem_map.mp chosen
    obtain ⟨there, due⟩ := Table.mem_selectBy.mp (List.mem_of_mem_take taken)
    cases there.symm.trans stored
    exact admissionDue_fallen due
  · have free := Table.count_eq_zero.mp unused jobId job stored
    rw [carries] at free
    exact ne_true_of_eq_false free (List.contains_iff_mem.mpr chosen)

theorem deletions_unlinked : deletions ⊆ unlinked := by
  rintro l ⟨id, rfl⟩ other admission
  exact Label.noConfusion

/-- The janitor deletes jobs and admissions, and then prunes the scheduler's history. -/
theorem janitor_cases {report : JanitorReport} (run : janitor env db = .ok (report, db')) :
    ∃ mid, Registers env deletions db mid ∧ Prunes env db mid ∧
      db' = pruneDecisions env (pruneOccurrences env mid) := by
  simp only [janitor, seq_eq_ok] at run
  obtain ⟨-, -, finish⟩ := run
  cases finish
  have deletes {db db' : Db} (path : Path env deletions db db') :
      Registers env deletions db db' ∧ Prunes env db db' :=
    ⟨path.registers, .of_path path deletions_unlinked⟩
  have retained (g : StatusGroup) (db : Db) : Registers env deletions db (inBlock (retentionStep env g) db).2 ∧
      Prunes env db (inBlock (retentionStep env g) db).2 :=
    deletes (inBlock_path fun n next pass => retentionStep_path pass)
  have admissions (db : Db) : Registers env deletions db (inBlock (pruneAdmissions env) db).2 ∧
      Prunes env db (inBlock (pruneAdmissions env) db).2 := by
    unfold inBlock
    split
    · rename_i n next pass
      exact (pruneAdmissions_prunes pass).symm
    · exact deletes (.refl _)
  have events (db : Db) : Path env deletions db (inBlock (pruneEvents env) db).2 := by
    refine inBlock_path fun n next pass => ?_
    cases pass
    exact .aside rfl rfl
  refine ⟨_, ?_, ?_, rfl⟩
  · exact (retained _ _).1.trans ((retained _ _).1.trans ((admissions _).1.trans (deletes (events _)).1))
  · exact (retained _ _).2.trans ((retained _ _).2.trans ((admissions _).2.trans (deletes (events _)).2))

end Retention

section Fire

/-- The labels of a fire call: jobs are admitted, or the janitor runs. -/
def firings (next : Uuid) : Set Label := admissions next ∪ deletions

theorem admissions_mono {next next' : Uuid} (below : next ≤ next') :
    admissions next' ⊆ admissions next := by
  rintro l (rfl | ⟨w, rfl⟩ | ⟨id, above, rfl⟩)
  · exact .inl rfl
  · exact .inr (.inl ⟨w, rfl⟩)
  · exact .inr (.inr ⟨id, below.trans above, rfl⟩)

variable {id decision : Uuid} {s : Schedule} {claim : ScheduleClaim} {next : Uuid}

theorem minted {next : Uuid} : {Label.mint} ⊆ firings next :=
  Set.singleton_subset_iff.mpr (.inl (.inl rfl))

theorem performOccurrence_trail {occurrence : Uuid} {due : Time} {late : ℤ} {job : Option Uuid}
    (run : performOccurrence env id s.toScheduleRow claim occurrence due late db = .ok (job, db'))
    (below : next ≤ db.nextUuid) : Trail env (firings next) db db' := by
  unfold performOccurrence at run
  split at run
  · simp only [seq_eq_ok] at run
    obtain ⟨-, -, ⟨report, last⟩, clean, finish⟩ := run
    cases finish
    obtain ⟨mid, registers, -, rfl⟩ := janitor_cases clean
    have deleted : Trail env (firings next) db mid := ⟨registers.trail.steps.mono fun l h => .inr h, registers.trail.logs⟩
    exact deleted.trans (.aside rfl rfl)
  · simp only [seq_eq_ok] at run
    obtain ⟨args, -, ⟨⟨created, fresh⟩, last⟩, enqueued, finish⟩ := run
    cases finish
    exact .of_path (enqueue_path enqueued) fun l h => .inl (admissions_mono below h)

theorem performFired_trail {occurrence : Uuid} {due : Time} {late : ℤ} {job : Option Uuid}
    {outcome : OccurrenceOutcome}
    (run : performFired env id s.toScheduleRow claim occurrence due late outcome db = .ok (job, db'))
    (below : next ≤ db.nextUuid) : Trail env (firings next) db db' := by
  unfold performFired at run
  split at run
  · exact performOccurrence_trail run below
  · cases run
    exact .refl _

theorem fireOccurrence_trail {due : Time} {counts counts' : FireCounts}
    (run : fireOccurrence env id s.toScheduleRow claim decision due counts db = .ok (counts', db'))
    (below : next ≤ db.nextUuid) : Trail env (firings next) db db' := by
  unfold fireOccurrence at run
  split at run
  · cases run
    exact .refl _
  · simp only [newUuid, seq_eq_ok] at run
    obtain ⟨late, -, ⟨job, performed⟩, perform, finish⟩ := run
    cases finish
    have performed : Trail env (firings next) { db with nextUuid := db.nextUuid + 1 } _ :=
      (performFired_trail perform (below.trans (Nat.le_succ _))).after_aside rfl rfl
    exact (Trail.of_path (.mint (Set.mem_singleton _)) minted).trans (performed.trans (.aside rfl rfl))

theorem fireOccurrences_trail {dues : List Time} {counts counts' : FireCounts}
    (run : fireOccurrences env id s.toScheduleRow claim decision dues counts db = .ok (counts', db'))
    (below : next ≤ db.nextUuid) : Trail env (firings next) db db' := by
  induction dues generalizing db counts with
  | nil =>
    cases run
    exact .refl _
  | cons due dues ih =>
    simp only [fireOccurrences, seq_eq_ok] at run
    obtain ⟨⟨counted, fired⟩, first, rest⟩ := run
    have trail := fireOccurrence_trail first below
    exact trail.trans (ih rest (below.trans trail.steps.nextUuid_le))

theorem writeSchedule_frame {r : ScheduleRow} (run : writeSchedule id r db = .ok db') :
    ∃ stored : Schedule, stored.toScheduleRow = r ∧ db' = db.putSchedule id stored := by
  obtain ⟨stored, store, finish⟩ := seq_eq_ok.mp run
  cases finish
  unfold storeSchedule at store
  split at store <;> cases store
  exact ⟨_, rfl, rfl⟩

theorem fireSchedule_trail {a : FireArgs} {answer : ActionResult}
    (run : fireSchedule env a db = .ok (answer, db')) :
    Trail env (firings db.nextUuid) db db' := by
  have minted : Trail env (firings db.nextUuid) db { db with nextUuid := db.nextUuid + 1 } :=
    .of_path (.mint (Set.mem_singleton _)) Taskq.minted
  simp only [fireSchedule, newUuid, seq_eq_ok] at run
  obtain ⟨-, -, -, -, run⟩ := run
  split at run
  · cases run
  · split at run
    · cases run
      exact minted
    · split at run
      · cases run
        exact minted
      · simp only [fireUnderClaim, seq_eq_ok] at run
        obtain ⟨outcome, -, ⟨counts, fired⟩, fire, written, write, finish⟩ := run
        cases finish
        obtain ⟨_, -, rfl⟩ := writeSchedule_frame write
        exact minted.trans ((fireOccurrences_trail fire (Nat.le_succ _)).trans (.aside rfl rfl))

end Fire

end Taskq
