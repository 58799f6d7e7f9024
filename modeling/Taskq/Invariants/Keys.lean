import Taskq.Invariants.Steps
import Taskq.Lifecycle.Targets

/-! The jobs as a table that statements revise. The partial unique index on keys holds in every reachable state. -/
namespace Taskq
open Relational

variable {site : Site} {allowed : System → Env → Command → Prop} {s t : System} {env : Env} {db db' : Db}
  {command : Command} {core : Core} {id : Uuid} {job : Job} {queue key : String}

section Revisions

/-- What one statement of a call does to the jobs. -/
inductive Revision (env : Env) (db db' : Db) : Prop
  | same (jobs : db'.jobs = db.jobs) : Revision env db db'
  | insert {id : Uuid} {new : JobRow} (run : insertJob env id new db = .ok (some db')) : Revision env db db'
  | update {id : Uuid} {old : Job} {new : JobRow} (stored : db.jobs.get? id = some old)
      (kept : new.identity = old.identity) (run : writeJob env id old new db = .ok db') : Revision env db db'
  | delete {id : Uuid} {old : Job} (stored : db.jobs.get? id = some old) (run : deleteJob env (id, old) db = .ok db') :
      Revision env db db'

theorem Statement.revises {entries : List Logged} (statement : Statement env entries db db') : Revision env db db' := by
  cases statement with
  | gate run =>
    obtain ⟨flows, rfl⟩ := breakerGate_frame run
    exact .same rfl
  | body statement =>
    cases statement with
    | job statement =>
      cases statement with
      | aside jobs => exact .same jobs
      | insert run => exact .insert run
      | update stored kept run => exact .update stored kept run
      | delete stored run => exact .delete stored run
    | consume _ _ run =>
      obtain ⟨flows, rfl⟩ := flowConsumeQueue_frame run
      exact .same rfl
    | key key =>
      obtain ⟨keys, frame⟩ := flowKeyAdmit_frame env key db
      exact .same (by rw [frame])

/-- What every revision keeps, a call keeps. -/
theorem Command.exec_revised {I : Db → Prop} (run : command.exec env db = .ok db') (start : I db)
    (keeps : ∀ {mid last : Db}, I mid → Revision env mid last → I last) : I db' := by
  obtain ⟨log, statements⟩ | setting := Command.exec_made run
  · exact statements.induction_on (P := fun _ last => I last) start fun before last => keeps before last.revises
  · refine keeps start (.same ?_)
    cases setting <;> rfl

/-- What every revision keeps holds in every reachable state. -/
theorem System.Reachable.revised {I : Db → Prop} (reachable : System.Reachable site allowed s)
    (installed : ∀ now, I (Db.installed site now))
    (keeps : ∀ {env : Env} {db db' : Db}, I db → Revision env db db' → I db') : I s.db := by
  refine reachable.induction (I := fun s => I s.db) installed ?_
  rintro s t env command before - ⟨-, -, run⟩
  exact Command.exec_revised run before keeps

/-- What a deletion leaves. -/
theorem deleteJob_jobs {old : Job} (run : deleteJob env (id, old) db = .ok db') : db'.jobs = db.jobs.remove id := by
  simp only [deleteJob, seq_eq_ok] at run
  obtain ⟨-, -, counts, -, finish⟩ := run
  cases finish
  unfold countDeleted
  split <;> rfl

/-- An update of a row outside the index enters it only without a clash. -/
theorem writeJob_unclashing {old : Job} {new : JobRow} (run : writeJob env id old new db = .ok db') :
    old.status.active = true ∨ idemClash db.toCore id new = false := by
  simp only [writeJob, seq_eq_ok, ensure_eq_ok] at run
  obtain ⟨-, -, -, -, -, free, -⟩ := run
  simpa using free

end Revisions

section Unique

/-- No two live jobs of a queue have the same key. -/
def KeysUnique (core : Core) : Prop :=
  ∀ id job other job', core.jobs.get? id = some job → core.jobs.get? other = some job' → job.status.active = true →
    job'.status.active = true → job.queue = job'.queue → job.idempotencyKey.isSome = true →
    job.idempotencyKey = job'.idempotencyKey → id = other

/-- Without a clash no other live job has the key. -/
theorem apart_of_unclashing {r : JobRow} {other : Uuid} (clear : idemClash core id r = false)
    (active : r.status.active = true) (keyed : r.idempotencyKey.isSome = true) (there : core.jobs.get? other = some job)
    (live : job.status.active = true) (queue : job.queue = r.queue) (same : job.idempotencyKey = r.idempotencyKey) :
    other = id := by
  by_contra apart
  have member : (other, job) ∈ core.jobs.select fun other j =>
      other ≠ id ∧ j.status.active ∧ j.queue = r.queue ∧ j.idempotencyKey = r.idempotencyKey :=
    Table.mem_select.mpr ⟨there, decide_eq_true ⟨apart, live, queue, same⟩⟩
  simp only [idemClash, keyed, active, Bool.true_and, decide_eq_false_iff_not, not_not, List.length_eq_zero_iff] at clear
  rw [clear] at member
  cases member

/-- A row that is put keeps the keys unique when it is outside the index, was in it with this key, or does not clash. -/
theorem KeysUnique.put (unique : KeysUnique db.toCore) {new : Job} (jobs : db'.jobs = db.jobs.put id new)
    (free : new.status.active = true → new.idempotencyKey.isSome = true → ∀ other job,
      db.jobs.get? other = some job → job.status.active = true → job.queue = new.queue →
      job.idempotencyKey = new.idempotencyKey → other = id) : KeysUnique db'.toCore := by
  intro a j b k first second live live' queue keyed same
  rw [jobs, Table.get?_put] at first second
  by_cases own : a = id <;> by_cases own' : b = id
  · exact own.trans own'.symm
  · rw [if_pos own] at first
    rw [if_neg own'] at second
    cases first
    exact absurd (free live keyed b k second live' queue.symm same.symm) own'
  · rw [if_neg own] at first
    rw [if_pos own'] at second
    cases second
    exact absurd (free live' (same ▸ keyed) a j first live queue same) own
  · rw [if_neg own] at first
    rw [if_neg own'] at second
    exact unique a j b k first second live live' queue keyed same

theorem KeysUnique.revision (unique : KeysUnique db.toCore) (revision : Revision env db db') : KeysUnique db'.toCore := by
  cases revision with
  | same jobs =>
    intro a j b k first second
    rw [jobs] at first second
    exact unique a j b k first second
  | insert run =>
    obtain ⟨new, _, _, row, -, clear, fresh, -, -, rfl⟩ := insertJob_frame run
    refine unique.put rfl ?_
    intro live keyed other job there active queue same
    exact apart_of_unclashing (row ▸ clear) live keyed there active queue same
  | @update id old _ stored kept run =>
    have clear := writeJob_unclashing run
    obtain ⟨new, _, _, _, _, row, -, -, rfl⟩ := writeJob_frame run
    refine unique.put rfl ?_
    intro live keyed other job there active queue same
    obtain was | clear := clear
    · have identity : new.identity = old.identity := (congrArg JobRow.identity row).trans kept
      have queues : new.queue = old.queue := congrArg Identity.queue identity
      have keys : new.idempotencyKey = old.idempotencyKey := congrArg Identity.idempotencyKey identity
      exact unique other job id old there stored active was (queue.trans queues) (same ▸ keyed) (same.trans keys)
    · exact apart_of_unclashing (row ▸ clear) live keyed there active queue same
  | delete stored run =>
    intro a j b k first second
    rw [deleteJob_jobs run, Table.get?_remove] at first second
    split_ifs at first second
    exact unique a j b k first second

theorem System.Reachable.keysUnique (reachable : System.Reachable site allowed s) : KeysUnique s.db.toCore := by
  refine reachable.revised (I := fun db => KeysUnique db.toCore) ?_ fun unique => unique.revision
  intro now a j b k first
  cases first

/-- The holder of a key is the live job that has it. -/
theorem KeysUnique.holder (unique : KeysUnique core) (stored : core.jobs.get? id = some job)
    (live : job.status.active = true) (queued : job.queue = queue) (keyed : job.idempotencyKey = some key) :
    keyHolder core queue key = some (id, job) := by
  cases holder : keyHolder core queue key with
  | none => exact absurd live (by simp [keyHolder_eq_none.mp holder id job stored queued keyed])
  | some held =>
    obtain ⟨other, job'⟩ := held
    obtain ⟨there, queue', key', live'⟩ := keyHolder_eq_some holder
    obtain rfl := unique id job other job' stored there live live' (queued.trans queue'.symm) (by simp [keyed])
      (keyed.trans key'.symm)
    cases stored.symm.trans there
    rfl

end Unique

end Taskq
