import Taskq.Lifecycle.WorkflowPaths
import Taskq.Model.Reservation

/-! The paths of admission by producers: single, bulk and in two phases. -/
namespace Taskq
open Relational

variable {env : Env} {db db' : Db} {a : EnqueueArgs} {m : Membership} {q : Queue}

/-- Labels of calls that only draw ids, if they touch the job tables at all. -/
def idleLabels : Set Label := {.mint}

/-- The labels of an admission: places are taken, and jobs come in under ids from `next` on. -/
def admissions (next : Uuid) : Set Label :=
  {l | l = .mint ∨ (∃ w, l = .reserve w) ∨ ∃ id, next ≤ id ∧ l = .enter id none}

section Membership

/-- The keys of the arguments are outside the namespaces of continuations. -/
def Admissible (a : EnqueueArgs) : Prop :=
  engineReserved a.idempotencyKey = false ∧ a.stepKey.all isStepKey = true

/-- What is known of the workflow of a new job before it is inserted. -/
inductive Resolved (a : EnqueueArgs) (db : Db) : Membership → Prop
  | ordinary (free : a.workflowId = none) : Resolved a db .ordinary
  | member {w : Uuid} {workflow : Workflow} {hash : String} {live : List Uuid}
      (named : a.workflowId = some w) (stored : db.workflows.get? w = some workflow)
      (unsealed : workflow.sealedAt = none) (distinct : live.Nodup)
      (waits : ∀ p ∈ live, ∃ r, db.jobs.get? p = some r ∧ r.status.terminal = false) :
      Resolved a db (.member w workflow hash live)

theorem Resolved.entry (resolved : Resolved a db m) (admissible : Admissible a) (env : Env) (q : Queue) :
    Entry db.toCore (a.row env q m) none := by
  refine .producer admissible.1 admissible.2 fun w h => ?_
  cases resolved with
  | ordinary free =>
    simp only [EnqueueArgs.row, free] at h
    cases h
  | member named stored unsealed =>
    simp only [EnqueueArgs.row, named] at h
    cases h
    exact ⟨_, stored, unsealed, rfl⟩

theorem Resolved.live (resolved : Resolved a db m) :
    m.live.Nodup ∧ ∀ p ∈ m.live, ∃ r, db.jobs.get? p = some r ∧ r.status.terminal = false := by
  cases resolved with
  | ordinary => exact ⟨List.nodup_nil, by simp [Membership.live]⟩
  | member _ _ _ distinct waits => exact ⟨distinct, waits⟩

/-- Steps that leave workflows and jobs alone keep the membership. -/
theorem Resolved.of_eq (resolved : Resolved a db m) (rows : ∀ id, db'.jobs.get? id = db.jobs.get? id)
    (workflows : ∀ w, db'.workflows.get? w = db.workflows.get? w) : Resolved a db' m := by
  cases resolved with
  | ordinary free => exact .ordinary free
  | member named stored unsealed distinct waits =>
    refine .member named (by rw [workflows, stored]) unsealed distinct fun p live => ?_
    rw [rows]
    exact waits p live

/-- An inserted row and its edges. -/
theorem Resolved.enter {S : Set Label} {id : Uuid} {inserted : Db} (resolved : Resolved a db m)
    (admissible : Admissible a) (run : insertJob env id (a.row env q m) db = .ok (some inserted))
    (minted : id < db.nextUuid)
    (after : db'.toCore = { inserted.toCore with
      deps := inserted.deps ∪ (m.live.map fun p => (id, p)).toFinset })
    (still : db'.surroundings = inserted.surroundings) (labelled : .enter id none ∈ S) : Path env S db db' :=
  .enter run minted rfl (resolved.entry admissible env q) resolved.live.1 resolved.live.2 after still
    labelled

theorem liveParents_eq_ok {w : Uuid} {parents : List (Uuid × Job)} {live : List Uuid}
    (run : liveParents w parents = .ok live) :
    live.Sublist (parents.map Prod.fst) ∧
      ∀ p ∈ live, ∃ r, (p, r) ∈ parents ∧ r.status.terminal = false := by
  induction parents generalizing live with
  | nil =>
    cases run
    exact ⟨List.Sublist.refl _, by simp⟩
  | cons head parents ih =>
    obtain ⟨id, parent⟩ := head
    simp only [liveParents, seq_eq_ok, ensure_eq_ok] at run
    obtain ⟨-, -, -, ⟨notFailed, notCancelled⟩, rest, tail, finish⟩ := run
    cases finish
    obtain ⟨sub, waits⟩ := ih tail
    split
    · rename_i waiting
      refine ⟨sub.cons_cons _, fun p member => ?_⟩
      obtain rfl | present := List.mem_cons.mp member
      · refine ⟨parent, by simp, ?_⟩
        cases h : parent.status <;> simp_all [JobStatus.terminal]
      · obtain ⟨r, inside, live⟩ := waits p present
        exact ⟨r, by simp [inside], live⟩
    · refine ⟨sub.cons _, fun p member => ?_⟩
      obtain ⟨r, inside, live⟩ := waits p member
      exact ⟨r, by simp [inside], live⟩

theorem liveDependencies_eq_ok {w : Uuid} {deps live : List Uuid}
    (run : liveDependencies w deps db = .ok live) (distinct : deps.Nodup) :
    live.Nodup ∧ ∀ p ∈ live, ∃ r, db.jobs.get? p = some r ∧ r.status.terminal = false := by
  simp only [liveDependencies, seq_eq_ok, ensure_eq_ok] at run
  obtain ⟨live, parents, -, -, finish⟩ := run
  cases finish
  obtain ⟨sub, waits⟩ := liveParents_eq_ok parents
  have keys : ((deps.filterMap fun id => (db.jobs.get? id).map fun j => (id, j)).map Prod.fst).Sublist
      deps := by
    rw [List.map_filterMap]
    have selected : (fun id => Option.map Prod.fst ((db.jobs.get? id).map fun j => (id, j))) =
        Option.guard fun id => (db.jobs.get? id).isSome := by
      funext id
      cases h : db.jobs.get? id <;> simp [Option.guard, h]
    rw [selected, List.filterMap_eq_filter]
    exact List.filter_sublist
  refine ⟨(distinct.sublist (sub.trans keys)), fun p member => ?_⟩
  obtain ⟨r, inside, waiting⟩ := waits p member
  simp only [List.mem_filterMap, Option.map_eq_some_iff, Prod.mk.injEq] at inside
  obtain ⟨id, -, j, stored, rfl, rfl⟩ := inside
  exact ⟨j, stored, waiting⟩

end Membership

section Enqueue

theorem checkEnqueue_admissible (run : checkEnqueue a = .ok ()) :
    Admissible a ∧ a.dependsOn.Nodup ∧ (a.workflowId.isNone = a.stepKey.isNone) := by
  simp only [checkEnqueue, seq_eq_ok, ensure_eq_ok] at run
  obtain ⟨-, -, -, -, -, -, -, -, -, -, -, -, -, -, -, -, -, -, -, -, -, reserved, -, -, -, -, -, -, -,
    -, -, together, -, -, -, step, -, -, distinct⟩ := run
  exact ⟨⟨eq_false_of_ne_true reserved, step⟩, distinct, together⟩

theorem resolveMembership_eq_ok (run : resolveMembership env a db = .ok m)
    (distinct : a.dependsOn.Nodup) : (∃ id, m = .existing id) ∨ Resolved a db m := by
  unfold resolveMembership at run
  split at run
  · rename_i free
    cases run
    exact .inr (.ordinary free)
  · rename_i w named
    simp only [seq_eq_ok] at run
    obtain ⟨-, -, run⟩ := run
    split at run
    · cases run
    · rename_i workflow stored
      simp only [seq_eq_ok] at run
      obtain ⟨-, -, run⟩ := run
      split at run
      · simp only [seq_eq_ok] at run
        obtain ⟨-, -, finish⟩ := run
        cases finish
        exact .inl ⟨_, rfl⟩
      · simp only [seq_eq_ok, ensure_eq_ok] at run
        obtain ⟨-, unsealed, live, parents, finish⟩ := run
        cases finish
        have sorted : ((a.dependsOn.filterMap id).insertionSort (· ≤ ·)).Nodup := by
          refine (List.perm_insertionSort _ _).nodup_iff.mpr (distinct.filterMap fun x y b hx hy => ?_)
          exact (show x = some b from hx).trans (show y = some b from hy).symm
        obtain ⟨once, waits⟩ := liveDependencies_eq_ok parents sorted
        exact .inr (.member named stored (by simpa using unsealed) once waits)

theorem reservePlace_frame {reserved : Db} (taken : reservePlace m db = .ok reserved) :
    ∃ counts, reserved = { db with memberCounts := counts } := by
  unfold reservePlace at taken
  split at taken
  · exact reserveWorkflowMembers_frame taken
  · cases taken
    exact ⟨_, rfl⟩

theorem reservePlace_path (env : Env) (run : reservePlace m db = .ok db') :
    Path env {l | ∃ w, l = .reserve w} db db' := by
  unfold reservePlace at run
  split at run
  · refine (reserveWorkflowMembers_path run).mono ?_
    rintro l rfl
    exact ⟨_, rfl⟩
  · cases run
    exact .refl _

theorem tryInsert_eq_some {id : Uuid} {r : JobRow} {inserted : Db}
    (run : tryInsert env id r m db = .ok (some inserted)) :
    ∃ reserved, reservePlace m db = .ok reserved ∧
      insertJob env id r reserved = .ok (some inserted) := by
  simp only [tryInsert] at run
  split at run
  · rename_i attempt
    cases run
    exact seq_eq_ok.mp attempt
  · split at run <;> cases run

/-- The outcome of the insert loop of `enqueue`. -/
inductive Inserted (env : Env) (a : EnqueueArgs) (r : JobRow) (m : Membership) (db : Db) :
    Uuid × Bool → Db → Prop
  | created {n : ℕ} {reserved inserted : Db}
      (taken : reservePlace m { db with nextUuid := db.nextUuid + n + 1 } = .ok reserved)
      (run : insertJob env (db.nextUuid + n) r reserved = .ok (some inserted)) :
      Inserted env a r m db (db.nextUuid + n, true) inserted
  | held {n : ℕ} {id : Uuid} (holder : convergeOn a m db = .ok (some id)) :
      Inserted env a r m db (id, false) { db with nextUuid := db.nextUuid + n }

theorem insertOrConverge_inserted {r : JobRow} {tries : ℕ} {answer : Uuid × Bool}
    (run : insertOrConverge env a r m tries db = .ok (answer, db')) :
    Inserted env a r m db answer db' := by
  induction tries generalizing db with
  | zero => cases run
  | succ tries ih =>
    simp only [insertOrConverge, newUuid, seq_eq_ok] at run
    obtain ⟨inserted, insert, run⟩ := run
    cases inserted with
    | some inserted =>
      cases run
      obtain ⟨reserved, taken, insert⟩ := tryInsert_eq_some insert
      exact .created (n := 0) taken insert
    | none =>
      simp only [seq_eq_ok] at run
      obtain ⟨found, converge, run⟩ := run
      cases found with
      | some id =>
        cases run
        exact .held (n := 1) converge
      | none =>
        have shift (n : ℕ) : db.nextUuid + 1 + n = db.nextUuid + (n + 1) := by
          rw [Nat.add_assoc, Nat.add_comm 1 n]
        have rest := ih run
        cases rest with
        | created taken again =>
          simp only [shift] at taken again ⊢
          exact .created taken again
        | held holder =>
          simp only [shift]
          exact .held holder

/-- What `enqueue` does: it finds the job, or it creates it. -/
inductive Enqueued (env : Env) (a : EnqueueArgs) (db : Db) : Uuid × Bool → Db → Prop
  | found {n : ℕ} {id : Uuid} : Enqueued env a db (id, false) { db with nextUuid := db.nextUuid + n }
  | created {n : ℕ} {q : Queue} {m : Membership} {reserved inserted db' : Db}
      (stored : db.queues.get? a.queue = some q) (admissible : Admissible a)
      (together : a.workflowId.isNone = a.stepKey.isNone) (resolved : Resolved a db m)
      (taken : reservePlace m { db with nextUuid := db.nextUuid + n + 1 } = .ok reserved)
      (run : insertJob env (db.nextUuid + n) (a.row env q m) reserved = .ok (some inserted))
      (finish : finishEnqueue env (db.nextUuid + n) (a.row env q m) m.live q inserted = .ok db') :
      Enqueued env a db (db.nextUuid + n, true) db'

theorem enqueue_enqueued {answer : Uuid × Bool} (run : enqueue env a db = .ok (answer, db')) :
    Enqueued env a db answer db' := by
  simp only [enqueue, seq_eq_ok] at run
  obtain ⟨⟨⟩, checked, run⟩ := run
  obtain ⟨admissible, distinct, together⟩ := checkEnqueue_admissible checked
  split at run
  · cases run
  · rename_i q stored
    simp only [seq_eq_ok] at run
    obtain ⟨-, -, m, resolve, run⟩ := run
    have resolved := resolveMembership_eq_ok resolve distinct
    split at run
    · cases run
      exact .found (n := 0)
    · rename_i other
      have resolved := resolved.resolve_left (not_exists.mpr other)
      simp only [seq_eq_ok] at run
      obtain ⟨-, -, ⟨⟨id, created⟩, inserted⟩, insert, run⟩ := run
      have outcome := insertOrConverge_inserted insert
      cases outcome with
      | created taken insert =>
        simp only [if_true, seq_eq_ok] at run
        obtain ⟨finished, finish, done⟩ := run
        cases done
        exact .created stored admissible together resolved taken insert finish
      | held =>
        simp only [Bool.false_eq_true, if_false] at run
        cases run
        exact .found

theorem finishEnqueue_frame {id : Uuid} {r : JobRow} {live : List Uuid}
    (run : finishEnqueue env id r live q db = .ok db') :
    db'.toCore = { db.toCore with deps := db.deps ∪ (live.map fun parent => (id, parent)).toFinset } ∧
      db'.surroundings = db.surroundings := by
  simp only [finishEnqueue, seq_eq_ok] at run
  obtain ⟨evented, event, finish⟩ := run
  rw [emitEvent_quiet (by decide) (by decide)] at event
  cases event
  cases finish
  split_ifs <;> exact ⟨rfl, rfl⟩

/-- A created job is the only row that appears, under an id of this call. -/
theorem Enqueued.created_row {id : Uuid} (outcome : Enqueued env a db (id, true) db') :
    db.nextUuid ≤ id ∧ id < db'.nextUuid ∧ db.jobs.get? id = none ∧
      (∃ (job : Job) (q : Queue) (m : Membership), db'.jobs.get? id = some job ∧ job.toJobRow = a.row env q m ∧
        db.queues.get? a.queue = some q) ∧
      ∀ j, j ≠ id → db'.jobs.get? j = db.jobs.get? j := by
  cases outcome with
  | @created n q m reserved inserted _ stored _ _ _ taken run finish =>
    have reserve := (reservePlace_path env taken).steps
    have before (j : Uuid) : reserved.jobs.get? j = db.jobs.get? j := reserve.row_eq (by simp)
    obtain ⟨job, counts, counters, row, -, -, fresh, -, -, rfl⟩ := insertJob_frame run
    have after := (finishEnqueue_frame finish).1
    have jobs : db'.jobs = reserved.jobs.put (db.nextUuid + n) job := congrArg Core.jobs after
    have next : db'.nextUuid = reserved.nextUuid := (congrArg Core.nextUuid after).trans rfl
    refine ⟨Nat.le_add_right _ _, ?_, before _ ▸ fresh, ⟨job, q, m, ?_, row, stored⟩, fun j other => ?_⟩
    · rw [next]
      exact (Nat.lt_succ_self _).trans_le reserve.nextUuid_le
    · rw [jobs, Table.get?_put_self]
    · rw [jobs, Table.get?_put_of_ne _ _ other, before]

theorem Enqueued.path {answer : Uuid × Bool} (outcome : Enqueued env a db answer db') :
    Path env (admissions db.nextUuid) db db' := by
  cases outcome with
  | found => exact .mints (.inl rfl) db _
  | @created n q m reserved inserted _ _ admissible together resolved taken run finish =>
    have mints : Path env (admissions db.nextUuid) db { db with nextUuid := db.nextUuid + n + 1 } :=
      .mints (.inl rfl) db (n + 1)
    have reserve := reservePlace_path env taken
    obtain ⟨after, still⟩ := finishEnqueue_frame finish
    have known : Resolved a reserved m := by
      refine resolved.of_eq (fun id => ?_) (fun w => ?_)
      · exact reserve.steps.row_eq (by simp)
      · exact reserve.steps.workflow_eq w (by simp)
    refine mints.trans ((reserve.mono fun l h => .inr (.inl h)).trans ?_)
    refine known.enter admissible run ?_ after still (.inr (.inr ⟨_, Nat.le_add_right _ _, rfl⟩))
    exact (Nat.lt_succ_self _).trans_le reserve.steps.nextUuid_le

theorem enqueue_path {answer : Uuid × Bool} (run : enqueue env a db = .ok (answer, db')) :
    Path env (admissions db.nextUuid) db db' :=
  (enqueue_enqueued run).path

theorem tryEnqueue_cases {answer : Verdict × Option Uuid × Option ℤ}
    (run : tryEnqueue env a db = .ok (answer, db')) :
    db' = db ∨ ∃ answer, enqueue env a db = .ok (answer, db') := by
  simp only [tryEnqueue, seq_eq_ok] at run
  obtain ⟨-, -, run⟩ := run
  split at run
  · cases run
    exact .inl rfl
  · split at run
    · rename_i enqueued
      cases run
      exact .inr ⟨_, enqueued⟩
    · split at run
      · cases run
        exact .inl rfl
      · cases run

/-- An accepted try is an enqueue. -/
theorem tryEnqueue_accepted {id : Uuid} {retry : Option ℤ} (run : tryEnqueue env a db = .ok ((.accepted, some id, retry), db')) :
    enqueue env a db = .ok ((id, true), db') := by
  simp only [tryEnqueue, seq_eq_ok] at run
  obtain ⟨-, -, run⟩ := run
  split at run
  · cases run
  · split at run
    · rename_i created _ _
      cases created
      · cases run
      · cases run
        assumption
    · split_ifs at run
      cases run

end Enqueue

section TwoPhase

theorem updateJob_admits {id admission : Uuid} {S : Set Label}
    (run : updateJob env id (fun r => { r with admissionId := some admission }) db = .ok db')
    (labelled : .change id (.link admission) ∈ S) : Path env S db db' := by
  unfold updateJob at run
  split at run
  · cases run
    exact .refl _
  · rename_i job stored
    exact .rewrite (k := .link admission) run stored rfl (.link job.life admission) (by simp) rfl rfl labelled

/-- A finish enqueues on its own queue, and without a time to live of its own. -/
theorem parseAdmissionJob_eq_ok {queue : String} {content : Jsonb} (run : parseAdmissionJob env queue content = .ok a) :
    a.queue = queue ∧ a.ttlSeconds = none := by
  simp only [parseAdmissionJob, seq_eq_ok, mapError_eq_ok] at run
  obtain ⟨-, -, -, -, -, -, -, -, -, -, -, -, -, -, -, -, -, -, -, -, -, -, -, -, -, -, run⟩ := run
  simp only [castAdmissionJob, seq_eq_ok] at run
  obtain ⟨_, -, _, -, _, -, _, -, _, -, _, -, finish⟩ := run
  cases finish
  exact ⟨rfl, rfl⟩

/-- The labels of a finished reservation: its job is admitted and then linked to it. -/
def receipts (next : Uuid) : Set Label := admissions next ∪ {l | ∃ id admission, l = .change id (.link admission)}

/-- The row of a reservation that is made now. -/
def reservationRow (env : Env) (queue key intent : String) (handle : Uuid) (reservationTtl receiptTtl : ℤ)
    (created : Time) : Admission where
  queue := queue
  idempotencyKey := key
  intentHash := intent
  handle := handle
  state := .reserved
  reservationExpiresAt := env.now + seconds reservationTtl
  receiptTtlSeconds := receiptTtl
  finishHash := none
  jobId := none
  receipt := none
  receiptExpiresAt := none
  createdAt := created
  updatedAt := env.now

theorem checkAdmissionKey_eq_ok {queue : String} {key : Option String} {k : String} :
    checkAdmissionKey queue key db = .ok k ↔
      (db.queues.get? queue).isSome ∧ key = some k ∧ k ≠ "" ∧ k.length ≤ 255 := by
  cases key with
  | none => simp [checkAdmissionKey]
  | some key =>
    simp only [checkAdmissionKey, seq_eq_ok, ensure_eq_ok, Option.some.injEq]
    aesop

theorem checkHandle_eq_ok {handle : Option Uuid} {h : Uuid} :
    checkHandle handle = .ok h ↔ handle = some h ∧ h ≠ 0 := by
  unfold checkHandle
  split
  · split_ifs <;> aesop
  · simp

/-- A reservation is a row of its own, the first of its key or one that takes the place of a row that
stands no more; a row that stands gives the answer. -/
theorem reserveAdmission_cases {queue : String} {key intent : Option String} {handle : Option Uuid}
    {reservationTtl receiptTtl : Option ℤ} {answer : ReserveResult}
    (run : reserveAdmission env queue key intent handle reservationTtl receiptTtl db =
      .ok (answer, db')) :
    ∃ k hash h ttl kept, key = some k ∧ intent = some hash ∧ handle = some h ∧ reservationTtl = some ttl ∧
      receiptTtl = some kept ∧
      ((admissionByKey db queue k = none ∧ answer = .reserved h (env.now + seconds ttl) ∧
          db' = { db with nextUuid := db.nextUuid + 1 }.putAdmission db.nextUuid
            (reservationRow env queue k hash h ttl kept env.now)) ∨
        ∃ id a standing, admissionByKey db queue k = some (id, a) ∧
          standingReservation env id a hash h db.toCore = .ok standing ∧
          ((standing = some answer ∧ db' = db) ∨
            (standing = none ∧ answer = .reserved h (env.now + seconds ttl) ∧
              db' = db.putAdmission id (reservationRow env queue k hash h ttl kept a.createdAt)))) := by
  simp only [reserveAdmission, seq_eq_ok, ensure_eq_ok, checkHandle_eq_ok, checkAdmissionKey_eq_ok,
    Option.any_eq_true] at run
  obtain ⟨-, -, k, ⟨-, rfl, -⟩, -, ⟨hash, rfl, -⟩, h, ⟨rfl, -⟩, -, ⟨ttl, rfl, -⟩, -, ⟨kept, rfl, -⟩, run⟩ := run
  refine ⟨k, hash, h, ttl, kept, rfl, rfl, rfl, rfl, rfl, ?_⟩
  split at run
  · rename_i free
    cases run
    exact .inl ⟨free, rfl, rfl⟩
  · rename_i id a found
    obtain ⟨standing, stands, run⟩ := seq_eq_ok.mp run
    refine .inr ⟨id, a, standing, found, stands, ?_⟩
    split at run <;> cases run
    · exact .inl ⟨rfl, rfl⟩
    · exact .inr ⟨rfl, rfl, rfl⟩

theorem reserveAdmission_registers {queue : String} {key intent : Option String} {handle : Option Uuid}
    {reservationTtl receiptTtl : Option ℤ} {answer : ReserveResult}
    (run : reserveAdmission env queue key intent handle reservationTtl receiptTtl db =
      .ok (answer, db')) : Registers env {.mint} db db' := by
  obtain ⟨k, hash, h, ttl, kept, -, -, -, -, -, ⟨-, -, rfl⟩ | ⟨id, a, standing, -, -, ⟨-, rfl⟩ | ⟨-, -, rfl⟩⟩⟩ :=
    reserveAdmission_cases run
  · exact (Path.mint (Set.mem_singleton _)).registers_put _ _
  · exact (Path.refl _).registers
  · exact (Path.refl _).registers_put _ _

/-- The row of a reservation after its job is admitted. -/
def receiptRow (env : Env) (a : Admission) (finishHash : String) (jobId : Uuid) (receipt : Jsonb) : Admission :=
  { a with
    state := .admitted, finishHash := some finishHash, jobId := some jobId
    receipt := some receipt, receiptExpiresAt := some (env.now + seconds a.receiptTtlSeconds)
    updatedAt := env.now }

/-- The hash of what a finish brings. -/
def finishHashOf (env : Env) (job receipt : Option Jsonb) : String :=
  env.sha256 (Jsonb.text (.build [("job", job.getD .null), ("receipt", receipt.getD .null)]))

/-- A finish repeats what is recorded, or it enqueues a job and links it to the reservation. -/
theorem finishAdmission_cases {queue : String} {key : Option String} {handle : Option Uuid}
    {job receipt : Option Jsonb} {answer : FinishResult}
    (run : finishAdmission env queue key handle job receipt db = .ok (answer, db')) :
    ∃ k id a, key = some k ∧ admissionByKey db queue k = some (id, a) ∧ handle = some a.handle ∧
      ((a.state = .admitted ∧ a.finishHash = some (finishHashOf env job receipt) ∧
          answer = ⟨.existed, a.jobId, a.receipt, a.receiptExpiresAt⟩ ∧ db' = db) ∨
        (a.state = .reserved ∧ env.now < a.reservationExpiresAt ∧ ∃ args jobId entered linked,
          parseAdmissionJob env queue (job.getD .null) = .ok args ∧
          enqueue env args db = .ok ((jobId, true), entered) ∧
          updateJob env jobId (fun r => { r with admissionId := some id }) entered = .ok linked ∧
          answer = ⟨.created, some jobId, some (receipt.getD .null), some (env.now + seconds a.receiptTtlSeconds)⟩ ∧
          db' = linked.putAdmission id
            (receiptRow env a (finishHashOf env job receipt) jobId (receipt.getD .null)))) := by
  simp only [finishAdmission, seq_eq_ok, ensure_eq_ok, checkHandle_eq_ok, checkAdmissionKey_eq_ok] at run
  obtain ⟨-, -, k, ⟨-, rfl, -⟩, h, ⟨rfl, -⟩, args, parsed, -, -, run⟩ := run
  split at run
  · cases run
  · rename_i id a found
    simp only [seq_eq_ok, ensure_eq_ok] at run
    obtain ⟨-, rfl, run⟩ := run
    refine ⟨k, id, a, rfl, found, rfl, ?_⟩
    split at run
    · rename_i admitted
      simp only [seq_eq_ok, ensure_eq_ok] at run
      obtain ⟨-, same, finish⟩ := run
      cases finish
      exact .inl ⟨admitted, same, rfl, rfl⟩
    · cases run
    · rename_i reserved
      simp only [admitReserved, seq_eq_ok, ensure_eq_ok] at run
      obtain ⟨-, unexpired, ⟨⟨jobId, created⟩, entered⟩, enqueue', -, rfl, linked, link, finish⟩ := run
      cases finish
      exact .inr ⟨reserved, unexpired, args, jobId, entered, linked, parsed, enqueue', link, rfl, rfl⟩

theorem finishAdmission_registers {queue : String} {key : Option String} {handle : Option Uuid}
    {job receipt : Option Jsonb} {answer : FinishResult}
    (run : finishAdmission env queue key handle job receipt db = .ok (answer, db')) :
    Registers env (receipts db.nextUuid) db db' := by
  obtain ⟨k, id, a, -, -, -, ⟨-, -, -, rfl⟩ | ⟨-, -, args, jobId, entered, linked, -, enters, links, -, rfl⟩⟩ :=
    finishAdmission_cases run
  · exact (Path.refl _).registers
  · have enter : Path env (receipts db.nextUuid) db entered := (enqueue_path enters).mono Set.subset_union_left
    exact (enter.trans (updateJob_admits links (.inr ⟨jobId, _, rfl⟩))).registers_put _ _

/-- A cancellation ends a reservation, or it changes nothing. -/
theorem cancelAdmission_cases {queue : String} {key : Option String} {handle : Option Uuid}
    {answer : CancelAdmissionResult}
    (run : cancelAdmission env queue key handle db = .ok (answer, db')) :
    ∃ k id a, key = some k ∧ admissionByKey db queue k = some (id, a) ∧ handle = some a.handle ∧
      (db' = db ∨ (a.state = .reserved ∧
        db' = db.putAdmission id { a with state := .cancelled, updatedAt := env.now })) := by
  simp only [cancelAdmission, seq_eq_ok, checkHandle_eq_ok, checkAdmissionKey_eq_ok] at run
  obtain ⟨-, -, k, ⟨-, rfl, -⟩, h, ⟨rfl, -⟩, run⟩ := run
  split at run
  · cases run
  · rename_i id a found
    simp only [seq_eq_ok, ensure_eq_ok] at run
    obtain ⟨-, rfl, run⟩ := run
    refine ⟨k, id, a, rfl, found, rfl, ?_⟩
    split at run
    · cases run
      exact .inl rfl
    · cases run
      exact .inl rfl
    · rename_i reserved
      split at run <;> cases run
      · exact .inl rfl
      · exact .inr ⟨reserved, rfl⟩

theorem cancelAdmission_registers {queue : String} {key : Option String} {handle : Option Uuid}
    {answer : CancelAdmissionResult}
    (run : cancelAdmission env queue key handle db = .ok (answer, db')) : Registers env idleLabels db db' := by
  obtain ⟨k, id, a, -, -, -, rfl | ⟨-, rfl⟩⟩ := cancelAdmission_cases run
  · exact (Path.refl _).registers
  · exact (Path.refl _).registers_put _ _

end TwoPhase

end Taskq
