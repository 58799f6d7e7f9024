import Taskq.Invariants.Endings
import Taskq.Lifecycle.QueuePaths
import Taskq.Library.Postconditions

/-! Who owns the admission into a queue, and when that changes. A job that is over on a queue with an owner stays over,
and every schedule has the owner of the queue that it targets. -/
namespace Taskq
open Relational

variable {site : Site} {allowed : System → Env → Command → Prop} {s t : System} {env : Env} {db db' db₁ : Db}
  {command : Command} {id : Uuid} {job : Job} {name : String}

/-- The role that owns the admission into a queue. -/
def Db.admissionOwner (db : Db) (name : String) : Option ℕ := (db.queues.get? name).bind (·.admissionOwnerOid)

theorem Db.admissionOwner_congr (queues : db'.queues = db.queues) (name : String) :
    db'.admissionOwner name = db.admissionOwner name := by
  unfold Db.admissionOwner
  rw [queues]

section Queues

/-- A queue keeps its owner, or comes in without one. -/
theorem Db.admissionOwner_put {queues : Table String Queue} {q : Queue} (same : q.admissionOwnerOid = db.admissionOwner name)
    (put : queues = db.queues.put name q) : Db.admissionOwner { db with queues := queues } = db.admissionOwner := by
  funext other
  subst put
  unfold Db.admissionOwner
  rw [Table.get?_put]
  split_ifs with own
  · rw [own]
    exact same
  · rfl

theorem ensureQueue_owner {name : Option String} {profile : Option Jsonb} {answer : Upsert × Queue}
    (run : ensureQueue env name profile db = .ok (answer, db')) : db'.admissionOwner = db.admissionOwner := by
  simp only [ensureQueue] at run
  split at run
  · cases run
  · rename_i name
    simp only [seq_eq_ok] at run
    obtain ⟨-, -, -, -, -, -, run⟩ := run
    split at run
    · rename_i absent
      obtain ⟨q, apply, finish⟩ := seq_eq_ok.mp run
      cases finish
      have unowned : q.admissionOwnerOid = none := (applyProfile_eq_ok apply).2
      exact Db.admissionOwner_put (by rw [unowned, Db.admissionOwner, absent]; rfl) rfl
    · rename_i old stored
      obtain ⟨q, apply, run⟩ := seq_eq_ok.mp run
      have kept : q.admissionOwnerOid = old.admissionOwnerOid := (applyProfile_eq_ok apply).2
      split at run <;> cases run
      · rfl
      · exact Db.admissionOwner_put (by rw [Db.admissionOwner, stored]; exact kept) rfl

theorem pauseQueue_owner {reason : Option String} {answer : PauseOutcome}
    (run : pauseQueue env name reason db = .ok (answer, db')) : db'.admissionOwner = db.admissionOwner := by
  unfold pauseQueue at run
  split at run
  · cases run
  · rename_i q stored
    split at run <;> cases run
    · rfl
    · exact Db.admissionOwner_put (by rw [Db.admissionOwner, stored]; rfl) rfl

theorem resumeQueue_owner {answer : PauseOutcome} (run : resumeQueue env name db = .ok (answer, db')) :
    db'.admissionOwner = db.admissionOwner := by
  unfold resumeQueue at run
  split at run
  · cases run
  · rename_i q stored
    split at run
    · cases run
      rfl
    · dsimp only at run
      split at run <;> cases run
      · exact Db.admissionOwner_put (by rw [Db.admissionOwner, stored]; rfl) rfl
      · exact Db.admissionOwner_put (by rw [Db.admissionOwner, stored]; rfl) rfl

/-- The calls that give a queue an owner. -/
def Command.assignsOwner : Command → Bool
  | .bindQueueAdmissionOwner .. | .adoptQueueAdmissionOwner .. | .rotateQueueAdmissionOwner .. => true
  | _ => false

/-- No other call changes the owner of a queue. -/
theorem Command.exec_owners (run : command.exec env db = .ok db') (other : command.assignsOwner = false) :
    db'.admissionOwner = db.admissionOwner := by
  have kept := (Command.exec_effect run).2.2
  have still (queues : db'.queues = db.queues) : db'.admissionOwner = db.admissionOwner :=
    funext (Db.admissionOwner_congr queues)
  cases command with
  | bindQueueAdmissionOwner | adoptQueueAdmissionOwner | rotateQueueAdmissionOwner => cases other
  | ensureQueue => exact (map_snd_eq_ok.mp run).elim fun _ run => ensureQueue_owner run
  | pauseQueue => exact (map_snd_eq_ok.mp run).elim fun _ run => pauseQueue_owner run
  | resumeQueue => exact (map_snd_eq_ok.mp run).elim fun _ run => resumeQueue_owner run
  | setConcurrencyLimit => exact (map_snd_eq_ok.mp run).elim fun _ run => still (setConcurrencyLimit_queues run)
  | setFlowLimit => exact (map_snd_eq_ok.mp run).elim fun _ run => still (setFlowLimit_queues run)
  | setBreakerConfig => exact (map_snd_eq_ok.mp run).elim fun _ run => still (setBreakerConfig_queues run)
  | setPriorityAging => exact (map_snd_eq_ok.mp run).elim fun _ run => still (setPriorityAging_queues run)
  | setBreakerRate => exact still (setBreakerRate_queues run)
  | setBreakerLatency => exact still (setBreakerLatency_queues run)
  | tripBreaker => exact still (tripBreaker_queues run)
  | forceCloseBreaker => exact still (forceCloseBreaker_queues run)
  | putSchedule | putManagedSchedule | setScheduleState | retireSchedule | setScheduleSmear | claimSchedules
  | scheduleError => exact still kept.1
  | fireSchedule => exact still kept
  | reserveAdmission | finishAdmission | cancelAdmission | janitor => exact still kept.2
  | _ => exact still kept.2.1

/-- A queue is handed to an owner by an operator while no active schedule targets it: to its first owner when nothing has
come into it yet, and else while it is paused and nothing in it is live. -/
structure Handover (env : Env) (name : String) (role : ℕ) (q : Queue) (db db' : Db) : Prop where
  stored : db.queues.get? name = some q
  operator : env.operator = true
  idle : ∀ id s, db.scheduling.schedules.get? id = some s → targetsQueue name s.toScheduleRow = true → s.state ≠ .active
  quiet : (q.admissionOwnerOid = none ∧ (∀ id job, db.jobs.get? id = some job → job.queue ≠ name) ∧
      ∀ id a, db.admissions.get? id = some a → a.queue ≠ name) ∨
    (q.pausedAt.isSome = true ∧ (∀ id job, db.jobs.get? id = some job → job.queue = name → job.status.active = false) ∧
      ∀ id a, db.admissions.get? id = some a → a.queue = name → a.state ≠ .reserved)
  after : db' = assignOwner env name q role db

theorem checkSchedulesPaused_idle {action : String} (check : checkSchedulesPaused action name db = .ok ()) :
    ∀ id s, db.scheduling.schedules.get? id = some s → targetsQueue name s.toScheduleRow = true → s.state ≠ .active := by
  intro id s stored targets active
  simpa [targets, active] using Table.count_eq_zero.mp (ensure_eq_ok.mp check) id s stored

theorem bindQueueAdmissionOwner_handover {role : Option String} (run : bindQueueAdmissionOwner env name role db = .ok db') :
    ∃ owner q, Handover env name owner q db db' := by
  simp only [bindQueueAdmissionOwner, seq_eq_ok, ensure_eq_ok] at run
  obtain ⟨-, operator, owner, -, run⟩ := run
  split at run
  · cases run
  · rename_i q stored
    simp only [seq_eq_ok, ensure_eq_ok] at run
    obtain ⟨-, unowned, -, empty, -, free, ⟨⟩, paused, finish⟩ := run
    cases finish
    refine ⟨owner, q, stored, operator, checkSchedulesPaused_idle paused, .inl ⟨by simpa using unowned, ?_, ?_⟩, rfl⟩
    · intro id job here
      simpa using Table.count_eq_zero.mp empty id job here
    · intro id a here
      simpa using Table.count_eq_zero.mp free id a here

theorem changeOwner_handover {change : String} {role actor reason : Option String} {checkOwner : Option ℕ → ℕ → Call Unit}
    (run : changeOwner env change name role actor reason checkOwner db = .ok db') :
    ∃ owner q, Handover env name owner q db db' := by
  simp only [changeOwner, seq_eq_ok, ensure_eq_ok] at run
  obtain ⟨-, operator, -, -, owner, -, run⟩ := run
  split at run
  · cases run
  · rename_i q stored
    simp only [checkQuiesced, seq_eq_ok, ensure_eq_ok] at run
    obtain ⟨-, -, ⟨⟩, ⟨-, paused, -, ⟨live, reserved⟩, idle⟩, finish⟩ := run
    cases finish
    refine ⟨owner, q, stored, operator, checkSchedulesPaused_idle idle, .inr ⟨paused, ?_, ?_⟩, rfl⟩
    · intro id job here own
      simpa [own] using Table.count_eq_zero.mp live id job here
    · intro id a here own
      simpa [own] using Table.count_eq_zero.mp reserved id a here

theorem adoptQueueAdmissionOwner_handover {role actor reason : Option String}
    (run : adoptQueueAdmissionOwner env name role actor reason db = .ok db') : ∃ owner q, Handover env name owner q db db' :=
  changeOwner_handover run

theorem rotateQueueAdmissionOwner_handover {role actor reason : Option String}
    (run : rotateQueueAdmissionOwner env name role actor reason db = .ok db') : ∃ owner q, Handover env name owner q db db' :=
  changeOwner_handover run

theorem Command.exec_handover (run : command.exec env db = .ok db') (assigns : command.assignsOwner = true) :
    ∃ name owner q, Handover env name owner q db db' := by
  cases command with
  | bindQueueAdmissionOwner name => exact ⟨name, bindQueueAdmissionOwner_handover run⟩
  | adoptQueueAdmissionOwner name => exact ⟨name, adoptQueueAdmissionOwner_handover run⟩
  | rotateQueueAdmissionOwner name => exact ⟨name, rotateQueueAdmissionOwner_handover run⟩
  | _ => cases assigns

/-- The owners afterwards. -/
theorem Handover.owner {role : ℕ} {q : Queue} (handover : Handover env name role q db db') (other : String) :
    db'.admissionOwner other = if other = name then some role else db.admissionOwner other := by
  rw [handover.after]
  unfold Db.admissionOwner assignOwner
  simp only [Db.putQueue, Table.get?_put]
  split_ifs <;> rfl

theorem Handover.toCore {role : ℕ} {q : Queue} (handover : Handover env name role q db db') : db'.toCore = db.toCore := by
  rw [handover.after]
  rfl

/-- An owned queue stays owned. -/
theorem Command.exec_owned (run : command.exec env db = .ok db') (owned : (db.admissionOwner name).isSome = true) :
    (db'.admissionOwner name).isSome = true := by
  cases assigns : command.assignsOwner with
  | false =>
    rw [Command.exec_owners run assigns]
    exact owned
  | true =>
    obtain ⟨other, role, q, handover⟩ := Command.exec_handover run assigns
    rw [handover.owner]
    split_ifs
    · rfl
    · exact owned

end Queues

section Redrives

variable {actor : Option String} {smear : ℤ} {ids : List Uuid}

/-- The jobs of queues that have an owner are as they were. -/
structure OwnedKept (db db' : Db) : Prop where
  queues : db'.queues = db.queues
  kept : ∀ id job, db.jobs.get? id = some job → (db.admissionOwner job.queue).isSome = true → db'.jobs.get? id = some job

theorem OwnedKept.refl (db : Db) : OwnedKept db db := ⟨rfl, fun _ _ stored _ => stored⟩

theorem OwnedKept.trans (first : OwnedKept db db₁) (second : OwnedKept db₁ db') : OwnedKept db db' := by
  refine ⟨second.queues.trans first.queues, ?_⟩
  intro id job stored owned
  refine second.kept id job (first.kept id job stored owned) ?_
  rw [Db.admissionOwner_congr first.queues]
  exact owned

/-- A job of a queue without an owner is rewritten. -/
theorem OwnedKept.put {old new : Job} (queues : db'.queues = db.queues) (stored : db.jobs.get? id = some old)
    (jobs : db'.jobs = db.jobs.put id new) (free : (db.admissionOwner old.queue).isSome = false) : OwnedKept db db' := by
  refine ⟨queues, ?_⟩
  intro other job there owned
  have apart : other ≠ id := by
    rintro rfl
    cases stored.symm.trans there
    exact nomatch free.symm.trans owned
  rw [jobs, Table.get?_put_of_ne _ _ apart]
  exact there

theorem redriveJob_ownedKept {reset : Bool} (run : redriveJob env id actor reset db = .ok db') :
    OwnedKept db db' ∧ ∃ new, db'.jobs.get? id = some new ∧ (db'.admissionOwner new.queue).isSome = false := by
  obtain ⟨old, new, stored, redrivable, queues, -, row, jobs⟩ := redriveJob_done run
  have free : (db.admissionOwner old.queue).isSome = false := by
    unfold Db.admissionOwner
    cases held : db.queues.get? old.queue with
    | none => rfl
    | some q => simpa [held] using redrivable.2.2.1
  refine ⟨.put queues stored jobs free, new, by rw [jobs, Table.get?_put_self], ?_⟩
  rw [Db.admissionOwner_congr queues, row]
  exact free

theorem redriveOne_ownedKept {done : Bool} (run : redriveOne env actor smear id db = .ok (done, db')) : OwnedKept db db' := by
  unfold redriveOne at run
  dsimp only at run
  split at run
  · rename_i last redriven
    cases run
    obtain ⟨next, redrive, later⟩ := seq_eq_ok.mp redriven
    obtain ⟨kept, new, stored, free⟩ := redriveJob_ownedKept redrive
    split_ifs at later
    · rw [updateJob, stored] at later
      obtain ⟨new', _, _, _, _, row, -, -, frame⟩ := writeJob_frame later
      have queues : db'.queues = next.queues := by rw [frame]
      have jobs : db'.jobs = next.jobs.put id new' := by rw [frame]
      exact kept.trans (.put queues stored jobs free)
    · cases later
      exact kept
  · split_ifs at run
    cases run
    exact .refl db

theorem redriveAll_ownedKept {answer : ℤ × ℤ} (run : redriveAll env actor smear ids db = .ok (answer, db')) :
    OwnedKept db db' := by
  induction ids generalizing db answer with
  | nil =>
    cases run
    exact .refl _
  | cons id ids ih =>
    simp only [redriveAll, seq_eq_ok] at run
    obtain ⟨⟨done, next⟩, first, ⟨⟨redriven, skipped⟩, last⟩, rest, finish⟩ := run
    cases finish
    exact (redriveOne_ownedKept first).trans (ih rest)

theorem redriveFailed_ownedKept {queue : String} {limit smear : Option ℤ} {answer : ℤ × ℤ}
    (run : redriveFailed env queue limit actor smear db = .ok (answer, db')) : OwnedKept db db' := by
  simp only [redriveFailed, seq_eq_ok] at run
  obtain ⟨-, -, -, -, loop⟩ := run
  exact redriveAll_ownedKept loop

/-- A job that is over on a queue with an owner stays over. -/
theorem Command.exec_over (run : command.exec env db = .ok db') (minted : Minted db.toCore) {old : Job}
    (stored : db.jobs.get? id = some old) (ended : old.status.terminal = true)
    (owned : (db.admissionOwner old.queue).isSome = true) (here : db'.jobs.get? id = some job) :
    job.status.terminal = true := by
  obtain ⟨F, used, steps⟩ := Command.exec_steps run
  by_cases revives : .change id .redrive ∈ F
  · have kept : OwnedKept db db' := by
      have redrives := Command.footprints_redrive used revives
      cases command with
      | redriveJob => exact (redriveJob_ownedKept run).1
      | redriveFailed => exact (map_snd_eq_ok.mp run).elim fun _ run => redriveFailed_ownedKept run
      | _ => exact redrives.elim
    cases here.symm.trans (kept.kept id old stored owned)
    exact ended
  · have old' (p : Option Uuid) : Label.enter id p ∉ F := fun enters =>
      absurd (Command.footprints_enter used enters) (Nat.not_le.mpr (minted.jobs id (by simp [stored])))
    obtain ⟨was, before, lasting⟩ := steps.job id (C := fun i j => i.status.terminal = true → j.status.terminal = true)
      (fun _ ended => ended) (fun first second ended => second (first ended)) old'
      (fun {k i j} member _ step ended => step.terminal_stays (fun only => revives (only ▸ member)) ended) here
    cases stored.symm.trans before
    exact lasting ended

end Redrives

section Schedules

variable {owner : Jsonb → Option ℕ} {r : ScheduleRow} {α : Type}

/-- The owner of the queue that a schedule targets; the maintenance schedule has none. -/
def Db.targetOwner (db : Db) (target : Jsonb) : Option ℕ :=
  if target.fieldText? "kind" = some "job" then (target.fieldText? "queue").bind db.admissionOwner else none

/-- Every schedule has the owner of its target. -/
structure SchedulesOwned (owner : Jsonb → Option ℕ) (db : Db) : Prop where
  target : db.targetOwner = owner
  owned : ∀ id s, db.scheduling.schedules.get? id = some s → s.admissionOwnerOid = owner s.target

namespace SchedulesOwned

/-- What a call of the scheduler leaves behind. -/
def After (owner : Jsonb → Option ℕ) (e : α × Db) : Prop := SchedulesOwned owner e.2

theorem congr (owned : SchedulesOwned owner db) (owners : db'.admissionOwner = db.admissionOwner)
    (schedules : db'.scheduling.schedules = db.scheduling.schedules) : SchedulesOwned owner db' := by
  constructor
  · rw [← owned.target]
    funext target
    unfold Db.targetOwner
    rw [owners]
  · rw [schedules]
    exact owned.owned

theorem aside (owned : SchedulesOwned owner db) (queues : db'.queues = db.queues)
    (schedules : db'.scheduling.schedules = db.scheduling.schedules) : SchedulesOwned owner db' :=
  owned.congr (funext (Db.admissionOwner_congr queues)) schedules

theorem write (owned : SchedulesOwned owner db) (own : r.admissionOwnerOid = owner r.target) :
    Yields (SchedulesOwned owner) (writeSchedule id r db) := by
  intro db' run
  obtain ⟨row, same, rfl⟩ := writeSchedule_frame run
  refine ⟨owned.target, ?_⟩
  intro other s here
  simp only [Db.putSchedule, Table.get?_put] at here
  split_ifs at here
  · cases here
    rw [same]
    exact own
  · exact owned.owned other s here

theorem writes {answer : α} (owned : SchedulesOwned owner db) (own : r.admissionOwnerOid = owner r.target) :
    Yields (After owner) (do let db ← writeSchedule id r db; .ok (answer, db)) :=
  Yields.seq (owned.write own) fun _ owned => yields_ok owned

/-- The trigger on the target. -/
theorem guard (owned : SchedulesOwned owner db) (r : ScheduleRow) :
    (scheduleAdmissionOwner r db).admissionOwnerOid = owner (scheduleAdmissionOwner r db).target := by
  rw [← owned.target]
  simp only [scheduleAdmissionOwner, Db.targetOwner, Option.bind_assoc]
  rfl

theorem byName (owned : SchedulesOwned owner db) {s : Schedule} (found : scheduleByName db name = some (id, s)) :
    s.admissionOwnerOid = owner s.target := owned.owned id s (scheduleByName_eq_some found)

theorem seq {β : Type} {call : Call (α × Db)} {next : α × Db → Call β} {P : β → Prop}
    (first : Yields (After owner) call) (rest : ∀ a db, SchedulesOwned owner db → Yields P (next (a, db))) :
    Yields P (call >>= next) := Yields.seq first fun e owned => rest e.1 e.2 owned

end SchedulesOwned

section Verbs

variable {actor reason : Option String} {expected : Option ℤ} {definition : Jsonb}

theorem clearAudit_owned (name : Option String) (definition : Jsonb) (owned : SchedulesOwned owner db) :
    Yields (SchedulesOwned owner) (clearAudit env name definition db) := by
  refine yields_after fun paused => ?_
  split
  · exact yields_ok owned
  · rename_i id s found
    obtain ⟨n, -, found⟩ := Option.bind_eq_some_iff.mp found
    split
    · exact yields_ok owned
    · exact owned.write (owned.byName found)

theorem putScheduleUnattested_owned (name : Option String) (definition : Jsonb) (owned : SchedulesOwned owner db) :
    Yields (SchedulesOwned.After owner) (putScheduleUnattested env name definition actor expected db) := by
  refine yields_after fun _ => yields_after fun _ => yields_after fun _ => yields_after fun d => ?_
  have minted : SchedulesOwned owner { db with nextUuid := db.nextUuid + 1 } := owned.aside rfl rfl
  dsimp only [newUuid]
  split
  · refine yields_after fun _ => yields_after fun _ => yields_after fun _ => ?_
    exact minted.writes (minted.guard _)
  · refine yields_after fun _ => ?_
    split
    · exact yields_after fun _ => yields_ok owned
    · refine yields_after fun _ => yields_after fun _ => ?_
      split
      · exact yields_ok owned
      · exact yields_after fun _ => owned.writes (owned.guard _)

theorem putSchedule_owned (name : Option String) (definition : Jsonb) (owned : SchedulesOwned owner db) :
    Yields (SchedulesOwned.After owner) (putSchedule env name definition actor expected db) := by
  refine yields_after fun _ => yields_after fun _ => (clearAudit_owned name definition owned).seq fun db owned => ?_
  refine SchedulesOwned.seq (putScheduleUnattested_owned name definition owned) fun result db owned => ?_
  dsimp only
  split
  · exact yields_ok owned
  · rename_i s stored
    exact owned.writes (owned.owned _ s stored)

theorem putManagedSchedule_owned (name : Option String) (definition : Jsonb) (m : Metadata) (owned : SchedulesOwned owner db) :
    Yields (SchedulesOwned.After owner) (putManagedSchedule env name definition m actor expected db) := by
  refine yields_after fun _ => yields_after fun _ => yields_after fun _ =>
    (clearAudit_owned name definition owned).seq fun db owned => ?_
  refine SchedulesOwned.seq (putScheduleUnattested_owned name definition owned) fun result db owned => ?_
  dsimp only
  split
  · exact yields_ok owned
  · rename_i s stored
    refine Yields.seq (P := fun marked => marked.admissionOwnerOid = owner marked.target) ?_ fun marked own => ?_
    · intro marked run
      unfold applyMetadata at run
      split at run <;> cases run
      exact owned.owned _ s stored
    · split
      · exact owned.writes own
      · exact owned.writes own

theorem retireSchedule_owned (n : String) (owned : SchedulesOwned owner db) :
    Yields (SchedulesOwned.After owner) (retireSchedule env n expected actor db) := by
  refine yields_after fun _ => yields_after fun _ => ?_
  split
  · exact yields_error
  · rename_i id s found
    have own := owned.byName (Option.filter_eq_some_iff.mp found).1
    refine yields_after fun _ => ?_
    split
    · exact yields_ok owned
    · exact owned.writes own

theorem setScheduleState_owned (n : String) (active : Bool) (owned : SchedulesOwned owner db) :
    Yields (SchedulesOwned.After owner) (setScheduleState env n active expected actor reason db) := by
  refine yields_after fun _ => yields_after fun _ => ?_
  have minted : SchedulesOwned owner { db with nextUuid := db.nextUuid + 1 } := owned.aside rfl rfl
  dsimp only [newUuid]
  split
  · exact yields_error
  · rename_i id s found
    have own := minted.byName (Option.filter_eq_some_iff.mp found).1
    refine yields_after fun _ => yields_after fun _ => yields_ite (yields_ok minted) ?_
    refine Yields.seq (minted.write ?_) fun db owned => yields_ok (owned.aside rfl rfl)
    exact own

theorem setScheduleSmear_owned (n : Option String) (smear : Option ℤ) (owned : SchedulesOwned owner db) :
    Yields (SchedulesOwned owner) (setScheduleSmear env n smear db) := by
  refine yields_after fun _ => yields_after fun _ => ?_
  split
  · exact yields_error
  · rename_i id s found
    obtain ⟨n, -, found⟩ := Option.bind_eq_some_iff.mp found
    split
    · exact yields_ok owned
    · exact owned.write (owned.byName found)

theorem claimAll_owned {worker : String} {lease : ℤ} {rows : List (Uuid × Schedule)} (owned : SchedulesOwned owner db)
    (own : ∀ e ∈ rows, e.2.admissionOwnerOid = owner e.2.target) :
    Yields (SchedulesOwned.After owner) (claimAll env worker lease rows db) := by
  induction rows generalizing db with
  | nil => exact yields_ok owned
  | cons row rows ih =>
    have minted : SchedulesOwned owner { db with nextUuid := db.nextUuid + 1 } := owned.aside rfl rfl
    have first : Yields (SchedulesOwned.After owner) (claimSchedule env worker lease row.1 row.2 db) :=
      minted.writes (own row (by simp))
    refine SchedulesOwned.seq first fun claim db owned => ?_
    exact SchedulesOwned.seq (ih owned fun e member => own e (by simp [member])) fun claims db owned => yields_ok owned

theorem claimSchedules_owned (worker : Option String) (limit lease : Option ℤ) (owned : SchedulesOwned owner db) :
    Yields (SchedulesOwned.After owner) (claimSchedules env worker limit lease db) := by
  refine yields_after fun _ => yields_after fun _ => claimAll_owned owned fun e member => ?_
  exact owned.owned e.1 e.2 (Table.mem_selectBy.mp (List.mem_of_mem_take member)).1

theorem scheduleError_owned (a : ErrorArgs) (owned : SchedulesOwned owner db) :
    Yields (SchedulesOwned.After owner) (scheduleError env a db) := by
  refine yields_after fun _ => yields_after fun _ => ?_
  split
  · exact yields_error
  · rename_i s stored
    split
    · exact yields_ok owned
    · split
      · exact yields_ok owned
      · refine Yields.seq (owned.write ?_) fun db owned => yields_ok (owned.aside rfl rfl)
        exact owned.owned _ s stored

theorem fireSchedule_owned {a : FireArgs} {answer : ActionResult} (owned : SchedulesOwned owner db)
    (run : fireSchedule env a db = .ok (answer, db')) : SchedulesOwned owner db' := by
  have queues := (fireSchedule_keeps run).1
  obtain ⟨rfl, -⟩ | fired := fireSchedule_runs run
  · exact owned.aside rfl rfl
  · cases fired with
    | @intro s stored claim result mid decision d found current accepted performs later answered row after =>
      have still : mid.queues = db.queues := by rw [← queues, after]; rfl
      have fired : SchedulesOwned owner (mid.putDecision decision d) := owned.aside still performs.schedules
      have own : stored.admissionOwnerOid = owner stored.target := by
        rw [row]
        exact owned.owned _ s found
      have written : writeSchedule a.scheduleId stored.toScheduleRow (mid.putDecision decision d) = .ok db' := by
        rw [after]
        simp [writeSchedule, storeSchedule, stored.checks]
      exact fired.write own db' written

end Verbs

section Calls

/-- A queue and the schedules that target it get the new owner together. -/
theorem Handover.schedulesOwned {role : ℕ} {q : Queue} (handover : Handover env name role q db db')
    (owned : SchedulesOwned db.targetOwner db) : SchedulesOwned db'.targetOwner db' := by
  refine ⟨rfl, ?_⟩
  intro id s here
  rw [handover.after] at here
  simp only [assignOwner, Table.get?_mapRows, Option.map_eq_some_iff] at here
  obtain ⟨old, there, rfl⟩ := here
  have before := owned.owned id old there
  split_ifs with targets
  · simp only [targetsQueue, Bool.and_eq_true, decide_eq_true_eq] at targets
    simp only [Db.targetOwner, targets.1, if_true, targets.2, Option.bind_some, handover.owner]
  · rw [before]
    simp only [Db.targetOwner]
    split_ifs with kind
    · cases named : old.target.fieldText? "queue" with
      | none => rfl
      | some other =>
        have apart : other ≠ name := by
          rintro rfl
          simp [targetsQueue, kind, named] at targets
        rw [Option.bind_some, Option.bind_some, handover.owner, if_neg apart]
    · rfl

/-- Every call keeps the owners of the schedules those of their targets. -/
theorem Command.exec_schedulesOwned (run : command.exec env db = .ok db') (owned : SchedulesOwned db.targetOwner db) :
    SchedulesOwned db'.targetOwner db' := by
  have settle (after : SchedulesOwned db.targetOwner db') : SchedulesOwned db'.targetOwner db' := by
    rw [after.target]
    exact after
  have kept := (Command.exec_effect run).2.2
  cases command with
  | bindQueueAdmissionOwner | adoptQueueAdmissionOwner | rotateQueueAdmissionOwner =>
    obtain ⟨name, role, q, handover⟩ := Command.exec_handover run rfl
    exact handover.schedulesOwned owned
  | putSchedule => exact settle ((map_snd_eq_ok.mp run).elim fun _ run => putSchedule_owned _ _ owned _ run)
  | putManagedSchedule => exact settle ((map_snd_eq_ok.mp run).elim fun _ run => putManagedSchedule_owned _ _ _ owned _ run)
  | setScheduleState => exact settle ((map_snd_eq_ok.mp run).elim fun _ run => setScheduleState_owned _ _ owned _ run)
  | retireSchedule => exact settle ((map_snd_eq_ok.mp run).elim fun _ run => retireSchedule_owned _ owned _ run)
  | setScheduleSmear => exact settle (setScheduleSmear_owned _ _ owned _ run)
  | claimSchedules => exact settle ((map_snd_eq_ok.mp run).elim fun _ run => claimSchedules_owned _ _ _ owned _ run)
  | fireSchedule => exact settle ((map_snd_eq_ok.mp run).elim fun _ run => fireSchedule_owned owned run)
  | scheduleError => exact settle ((map_snd_eq_ok.mp run).elim fun _ run => scheduleError_owned _ owned _ run)
  | janitor => exact settle (owned.congr (Command.exec_owners run rfl) kept.1)
  | _ => exact settle (owned.congr (Command.exec_owners run rfl) (by rw [kept.1]))

theorem System.Reachable.schedulesOwned (reachable : System.Reachable site allowed s) :
    SchedulesOwned s.db.targetOwner s.db := by
  refine reachable.induction (I := fun s => SchedulesOwned s.db.targetOwner s.db) ?_ ?_
  · intro now
    refine ⟨rfl, ?_⟩
    intro id s here
    simp only [System.installed, Db.installed, Table.get?_put] at here
    split_ifs at here
    · cases here
      rfl
    · cases here
  · intro t u env command owned _ step
    exact Command.exec_schedulesOwned step.exec owned

end Calls

end Schedules

end Taskq
