import Taskq.Lifecycle.HousekeepingPaths
import Taskq.Model.Operator

/-! The paths of the operator's verbs. -/
namespace Taskq
open Relational

variable {env : Env} {S : Set Label} {id : Uuid} {db db' : Db} {actor reason : Option String}

section Snapshot

/-- A loop over rows read before it finds each of them unchanged, when an iteration rewrites its own
row only. -/
theorem forEach_snapshot {f : Uuid × Job → Db → Call Db} {rows : List (Uuid × Job)}
    (keys : (rows.map Prod.fst).Nodup) (current : ∀ r ∈ rows, db.jobs.get? r.1 = some r.2)
    (one : ∀ r ∈ rows, ∀ db db', f r db = .ok db' → db.jobs.get? r.1 = some r.2 → Path env S db db' ∧
      ∀ other, other ≠ r.1 → db'.jobs.get? other = db.jobs.get? other)
    (run : forEach f rows db = .ok db') : Path env S db db' := by
  induction rows generalizing db with
  | nil =>
    cases run
    exact .refl _
  | cons row rows ih =>
    obtain ⟨fresh, distinct⟩ := List.nodup_cons.mp keys
    obtain ⟨next, first, rest⟩ := seq_eq_ok.mp run
    obtain ⟨path, others⟩ := one row (by simp) db next first (current row (by simp))
    refine path.trans (ih distinct (fun r member => ?_)
      (fun r member => one r (by simp [member])) rest)
    rw [others r.1 fun same => fresh (same ▸ List.mem_map_of_mem member)]
    exact current r (by simp [member])

end Snapshot

section Cancel

/-- What a cancellation may do to a job that has not started, or that runs. -/
def cancelling : List Change := [.withdraw true .blocked, .withdraw true .queued, .requestCancel]

theorem unstarted_iff {r : JobRow} :
    unstarted r = true ↔ r.status = .blocked ∨ r.status = .queued := by
  simp [unstarted]

theorem running_of_started {r : JobRow} (live : ¬r.status.terminal = true)
    (started : ¬unstarted r = true) : r.status = .running := by
  simp only [unstarted_iff] at started
  cases h : r.status <;> simp_all [JobStatus.terminal]

/-- A row that has not started is cancelled and loses its own edges. -/
theorem cancelUnstarted_path {job : Job} {new : JobRow} {written : Db}
    (write : writeJob env id job new db = .ok written) (stored : db.jobs.get? id = some job)
    (waiting : unstarted job.toJobRow = true) (kept : new.identity = job.identity)
    (keeps : job.life.cancelRequested = true → new.life.cancelRequested = true)
    (lands : new.life =
      { job.life with status := .cancelled, cancelRequested := new.life.cancelRequested }) :
    Path env (changesOf id cancelling) db (dropOwnEdges id written) := by
  have status := unstarted_iff.mp waiting
  refine .change (k := .withdraw true job.life.status) (t := written.attempts) write rfl rfl stored kept
    ?_ (by simp) ?_ rfl rfl ?_
  · rw [lands]
    exact .withdraw job.life true _ (status.imp (fun h => h) .inl) keeps
  · rw [writeJob_attempts write]
    exact SameLedger.refl _
  · refine mem_changesOf.mpr ?_
    obtain h | h := status <;> simp [cancelling, show job.life.status = _ from h]

theorem cancelJob_path {answer : CancelOutcome × JobStatus}
    (run : cancelJob env id actor reason db = .ok (answer, db')) :
    Path env (changesOf id cancelling ∪ dependents) db db' := by
  unfold cancelJob at run
  split at run
  · cases run
  · rename_i job stored
    split at run
    · cases run
      exact .refl _
    · rename_i live
      split at run
      · rename_i waiting
        simp only [seq_eq_ok] at run
        obtain ⟨written, write, last, event, finish⟩ := run
        cases finish
        refine Path.trans ((cancelUnstarted_path write stored waiting rfl (fun asked => ?_) rfl).mono
          Set.subset_union_left) ((emitEvent_path event).mono Set.subset_union_right)
        cases requested : job.cancelRequestedAt <;> simp [JobRow.life]
      · rename_i started
        simp only [seq_eq_ok] at run
        obtain ⟨written, write, last, event, finish⟩ := run
        cases finish
        refine Path.trans ?_ ((emitEvent_path event).mono Set.subset_union_right)
        exact .rewrite (k := .requestCancel) write stored rfl
          (.requestCancel job.life (running_of_started live started)) (by simp) rfl rfl
          (.inl (by simp [changesOf, cancelling]))

theorem purgeJob_path {blocked : Set Uuid} (run : purgeJob env actor reason id db = .ok db')
    (ready : Sweepable blocked id db) : Path env (sweeps blocked) db db' := by
  simp only [purgeJob, seq_eq_ok] at run
  obtain ⟨written, write, event⟩ := run
  refine sweepRow_path write event ready (fun _ => rfl)
    fun r => ⟨(r.cancelRequestedAt <|> some env.now).isSome, fun h => ?_, rfl⟩
  cases requested : r.cancelRequestedAt <;> rfl

theorem purgeable_unstarted {queue : String} {core : Core} (member : id ∈ purgeable env queue core)
    (job : Job) (stored : core.jobs.get? id = some job) : unstarted job.toJobRow = true := by
  simp only [purgeable, List.mem_map, Prod.exists, exists_and_right, exists_eq_right,
    Table.mem_selectBy, decide_eq_true_eq] at member
  obtain ⟨same, here, -, waiting, -⟩ := member
  cases here.symm.trans stored
  exact waiting

theorem purgeQueued_path {queue : String} {limit : Option ℤ} {n : ℤ}
    (run : purgeQueued env queue limit actor reason db = .ok (n, db')) :
    Path env (sweeps (blockedOf (purgeable env queue db.toCore) db)) db db' := by
  simp only [purgeQueued, purgeRows, seq_eq_ok] at run
  obtain ⟨-, -, -, -, ⟨done, last⟩, loop, finish⟩ := run
  cases finish
  exact forRows_sweep (fun id db db' one ready => purgeJob_path one ready) (fun id => purgeable_unstarted) loop

end Cancel

section Expire

theorem backdateLease_path {job : Job} (run : backdateLease env id job db = .ok db')
    (stored : db.jobs.get? id = some job) (running : job.status = .running) :
    Path env (changesOf id [.beat]) db db' :=
  .rewrite run stored rfl (.beat job.life running) (by simp) rfl rfl (by simp [changesOf])

theorem expireJob_path {answer : ExpireOutcome}
    (run : expireJob env id actor db = .ok (answer, db')) :
    Path env (changesOf id (.beat :: expiring) ∪ dependents) db db' := by
  unfold expireJob at run
  split at run
  · cases run
  · rename_i job stored
    split at run
    · rename_i running
      simp only [seq_eq_ok] at run
      obtain ⟨backdated, write, evented, event, ⟨done, last⟩, reap, finish⟩ := run
      cases finish
      refine Path.trans ((backdateLease_path write stored running).mono ?_)
        (((emitEvent_path event).mono Set.subset_union_right).trans
          ((reapJob_path reap).of_holding.mono ?_))
      · rintro l ⟨k, member, rfl⟩
        exact .inl (by simp_all [changesOf])
      · refine Set.union_subset_union_left _ ?_
        rintro l ⟨k, member, rfl⟩
        exact ⟨k, by simp [member], rfl⟩
    · cases run
      exact .refl _

/-- The jobs that a worker runs. -/
def heldBy (worker : Option String) (c : Core) : Set Uuid :=
  {id | ∃ job, c.jobs.get? id = some job ∧ job.status = .running ∧ worker.isSome ∧ job.workerId = worker}

/-- The labels of an operator's expiry of the leases of these jobs. -/
def revocations (held : Set Uuid) : Set Label := {l | ∃ id, l = .change id .beat} ∪ reclaims held

theorem expireWorkerLeases_path {worker : Option String} {answer : ℤ × ℤ}
    (run : expireWorkerLeases env worker db = .ok (answer, db')) :
    Path env (revocations (heldBy worker db.toCore)) db db' := by
  simp only [expireWorkerLeases, seq_eq_ok] at run
  obtain ⟨backdated, loop, ⟨n, last⟩, reap, finish⟩ := run
  cases finish
  have held {id : Uuid} {job : Job} (member : (id, job) ∈ db.jobs.selectBy
      (fun _ j => j.status = .running ∧ worker.isSome ∧ j.workerId = worker) idLe) :
      id ∈ heldBy worker db.toCore := by
    obtain ⟨stored, running⟩ := Table.mem_selectBy.mp member
    exact ⟨job, stored, of_decide_eq_true running⟩
  refine Path.trans ?_ ((reapAll_path (fun id member => ?_) reap).of_holding.mono Set.subset_union_right)
  swap
  · obtain ⟨⟨_, job⟩, chosen, rfl⟩ := List.mem_map.mp member
    exact held chosen
  refine forEach_snapshot (Table.selectBy_keys_nodup _ _ _) (fun r member => ?_)
    (fun r member db db' one stored => ⟨?_, fun other apart => ?_⟩) loop
  · exact (Table.mem_selectBy.mp member).1
  · obtain ⟨-, running⟩ := Table.mem_selectBy.mp member
    simp only [decide_eq_true_eq] at running
    refine (backdateLease_path one stored running.1).mono ?_
    rintro l ⟨k, beat, rfl⟩
    exact .inl ⟨r.1, by simp_all⟩
  · obtain ⟨_, _, _, _, _, -, -, -, rfl⟩ := writeJob_frame one
    exact Table.get?_put_of_ne _ _ apart

end Expire

section Redrive

/-- The labels of redrives: the row is queued again, and its instant may be smeared. -/
def redrives : Set Label := {l | ∃ id, l = .change id .redrive ∨ l = .change id .adjust}

theorem redriveJob_path {resetProgress : Bool}
    (run : redriveJob env id actor resetProgress db = .ok db') :
    Path env (changesOf id [.redrive]) db db' := by
  unfold redriveJob at run
  split at run
  · cases run
  · rename_i job stored
    simp only [seq_eq_ok, ensure_eq_ok, mapError_eq_ok] at run
    obtain ⟨-, member, -, failed, written, write, evented, event, finish⟩ := run
    cases finish
    rw [emitEvent_quiet (by decide) (by decide)] at event
    cases event
    exact (Path.rewrite write stored rfl (.redrive job.life failed) (by simp) rfl rfl
      (by simp [changesOf])).trans (.aside rfl rfl)

theorem redriveOne_path {smear : ℤ} {done : Bool}
    (run : redriveOne env actor smear id db = .ok (done, db')) : Path env redrives db db' := by
  simp only [redriveOne] at run
  split at run
  · rename_i last redriven
    cases run
    obtain ⟨next, redrive, smeared⟩ := seq_eq_ok.mp redriven
    refine ((redriveJob_path redrive).mono ?_).trans ?_
    · rintro l ⟨k, member, rfl⟩
      exact ⟨id, .inl (by simp_all)⟩
    · split at smeared
      · unfold updateJob at smeared
        split at smeared
        · cases smeared
          exact .refl _
        · rename_i job stored
          exact .rewrite (k := .adjust) smeared stored rfl (.adjust job.life) (by simp) rfl rfl
            ⟨id, .inr rfl⟩
      · cases smeared
        exact .refl _
  · split at run
    · cases run
      exact .refl _
    · cases run

theorem redriveAll_path {smear : ℤ} {ids : List Uuid} {answer : ℤ × ℤ}
    (run : redriveAll env actor smear ids db = .ok (answer, db')) : Path env redrives db db' := by
  induction ids generalizing db answer with
  | nil =>
    cases run
    exact .refl _
  | cons id ids ih =>
    simp only [redriveAll, seq_eq_ok] at run
    obtain ⟨⟨done, next⟩, first, ⟨⟨redriven, skipped⟩, last⟩, rest, finish⟩ := run
    cases finish
    exact (redriveOne_path first).trans (ih rest)

theorem redriveFailed_path {queue : String} {limit smear : Option ℤ} {answer : ℤ × ℤ}
    (run : redriveFailed env queue limit actor smear db = .ok (answer, db')) :
    Path env redrives db db' := by
  simp only [redriveFailed, seq_eq_ok] at run
  obtain ⟨-, -, -, -, loop⟩ := run
  exact redriveAll_path loop

end Redrive

section Adjust

theorem runNow_path (run : runNow env id actor db = .ok db') :
    Path env (changesOf id [.adjust]) db db' := by
  unfold runNow at run
  split at run
  · cases run
  · rename_i job stored
    simp only [seq_eq_ok] at run
    obtain ⟨-, -, written, write, evented, event, finish⟩ := run
    cases finish
    rw [emitEvent_quiet (by decide) (by decide)] at event
    cases event
    exact (Path.rewrite (k := .adjust) write stored rfl (.adjust job.life) (by simp) rfl rfl
      (by simp [changesOf])).trans (.aside rfl rfl)

theorem reprioritize_path {priority : Option ℤ}
    (run : reprioritize env id priority actor db = .ok db') :
    Path env (changesOf id [.adjust]) db db' := by
  simp only [reprioritize, seq_eq_ok] at run
  obtain ⟨-, -, run⟩ := run
  split at run
  · cases run
  · rename_i job stored
    simp only [seq_eq_ok] at run
    obtain ⟨-, -, written, write, event⟩ := run
    rw [emitEvent_quiet (by decide) (by decide)] at event
    cases event
    exact (Path.rewrite (k := .adjust) write stored rfl (.adjust job.life) (by simp) rfl rfl
      (by simp [changesOf])).trans (.aside rfl rfl)

end Adjust

end Taskq
