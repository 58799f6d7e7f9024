import Taskq.Lifecycle.AdmissionPaths
import Taskq.Lifecycle.Calendar

/-! The target of a schedule as it is stored, and the enqueue call that a fired occurrence makes with it. -/
namespace Taskq
open Relational

variable {env : Env} {db db' : Db}

section Target

/-- The fields of a target that may be null. -/
def optionalFields : List String :=
  ["priority", "max_attempts", "lease_seconds", "backoff_mode", "backoff_base", "backoff_cap",
    "concurrency_key", "affinity_key"]

/-- An optional integer field within its bounds, as its check reads it. -/
def IntField (env : Env) (target : Jsonb) (key : String) (low high : ℤ) : Prop :=
  ∃ n, castInt env target key = .ok n ∧ n.all (fun n => low ≤ n ∧ n ≤ high) = true

/-- What the checks of a definition guarantee of the stored target. -/
structure Targeted (env : Env) (target : Jsonb) : Prop where
  kind : target.fieldText? "kind" = some "job"
  queue : ∃ q, target.fieldText? "queue" = some q ∧ isQueueName q = true
  jobType : ∃ t, target.fieldText? "job_type" = some t ∧ keyBytesOk t = true
  payload : ∃ p, target.field? "payload" = some p ∧ p.kind = .object ∧ octetLength p.text ≤ 65536
  headers : ∃ h, target.field? "headers" = some h ∧ h.kind = .object ∧ octetLength h.text ≤ 8192
  priority : IntField env target "priority" 0 1000
  maxAttempts : IntField env target "max_attempts" 1 100
  leaseSeconds : IntField env target "lease_seconds" 15 86400
  backoffBase : IntField env target "backoff_base" 0 86400
  backoffCap : IntField env target "backoff_cap" 0 604800
  backoffMode : (target.fieldText? "backoff_mode").all (fun m => (BackoffMode.ofText? m).isSome) = true
  concurrencyKey : (target.fieldText? "concurrency_key").all keyBytesOk = true
  affinityKey : (target.fieldText? "affinity_key").all keyBytesOk = true

theorem checkTargetInt_eq_ok {given : Jsonb} {key : String} {low high : ℤ}
    (run : checkTargetInt env given key low high = .ok ()) : IntField env given key low high := by
  unfold checkTargetInt at run
  split at run
  · rename_i absent
    exact ⟨none, by simp [castInt, castText, Jsonb.fieldText?, absent, bind, Except.bind], rfl⟩
  · rename_i absent
    exact ⟨none, by simp [castInt, castText, Jsonb.fieldText?, Jsonb.scalarText?, absent, bind, Except.bind], rfl⟩
  · simp only [seq_eq_ok, mapError_eq_ok, ensure_eq_ok] at run
    obtain ⟨n, cast, bounds⟩ := run
    exact ⟨n, cast, bounds⟩
  · cases run

/-- A field reads the same in two documents that give it the same text. -/
theorem IntField.congr {target given : Jsonb} {key : String} {low high : ℤ}
    (field : IntField env given key low high) (same : target.fieldText? key = given.fieldText? key) :
    IntField env target key low high := by
  obtain ⟨n, cast, bounds⟩ := field
  exact ⟨n, by simpa [castInt, castText, same] using cast, bounds⟩

theorem normalizeTarget_targeted {given target : Jsonb} (run : normalizeTarget env given db = .ok target) :
    Targeted env target := by
  simp only [normalizeTarget, checkTargetText, seq_eq_ok, ensure_eq_ok] at run
  obtain ⟨⟨⟩, -, ⟨⟩, ⟨-, name, type⟩, ⟨⟩, -, ⟨⟩, payload, ⟨⟩, headers, ⟨⟩, priority, ⟨⟩, attempts, ⟨⟩, lease,
    ⟨⟩, base, ⟨⟩, cap, ⟨⟩, mode, ⟨⟩, concurrency, ⟨⟩, affinity, finish⟩ := run
  cases finish
  -- the fields that may be null keep their text
  have given_text (value : Option Jsonb) :
      (some (value.getD .null)).bind Jsonb.scalarText? = value.bind Jsonb.scalarText? := by
    cases value <;> rfl
  have text (key : String) (optional : key ∈ optionalFields) :
      (Jsonb.build ([("kind", .str "job"), ("queue", .str ((given.fieldText? "queue").getD "")),
          ("job_type", .str ((given.fieldText? "job_type").getD "")),
          ("payload", (given.field? "payload").getD (.obj [])),
          ("headers", (given.field? "headers").getD (.obj []))] ++
        optionalFields.map fun key => (key, (given.field? key).getD .null))).fieldText? key =
        given.fieldText? key := by
    refine Eq.trans (congrArg (Option.bind · Jsonb.scalarText?) ?_) (given_text (given.field? key))
    rw [Jsonb.field?_build]
    simp only [optionalFields, List.mem_cons, List.not_mem_nil, or_false] at optional
    obtain rfl | rfl | rfl | rfl | rfl | rfl | rfl | rfl := optional <;> rfl
  refine ⟨?_, ⟨_, ?_, name⟩, ⟨_, ?_, type⟩, ⟨_, ?_, payload⟩, ⟨_, ?_, headers⟩,
    (checkTargetInt_eq_ok priority).congr (text _ (by decide)), (checkTargetInt_eq_ok attempts).congr (text _ (by decide)),
    (checkTargetInt_eq_ok lease).congr (text _ (by decide)), (checkTargetInt_eq_ok base).congr (text _ (by decide)),
    (checkTargetInt_eq_ok cap).congr (text _ (by decide)), (congrArg _ (text _ (by decide))).trans mode,
    (congrArg _ (text _ (by decide))).trans concurrency, (congrArg _ (text _ (by decide))).trans affinity⟩
  all_goals
    try unfold Jsonb.fieldText?
    rw [Jsonb.field?_build]
    rfl

end Target

section Enqueue

variable {a : EnqueueArgs} {key : String} {answer : Uuid × Bool}

/-- A key without a holder clashes with nothing. -/
theorem keyHolder_eq_none {core : Core} {queue : String} : keyHolder core queue key = none ↔
    ∀ id j, core.jobs.get? id = some j → j.queue = queue → j.idempotencyKey = some key →
      j.status.active = false := by
  unfold keyHolder
  rw [List.head?_eq_none_iff, List.eq_nil_iff_forall_not_mem]
  simp only [Prod.forall, Table.mem_selectBy, decide_eq_true_eq, not_and, Bool.not_eq_true]

theorem keyHolder_eq_some {core : Core} {queue : String} {id : Uuid} {j : Job}
    (holds : keyHolder core queue key = some (id, j)) :
    core.jobs.get? id = some j ∧ j.queue = queue ∧ j.idempotencyKey = some key ∧ j.status.active = true := by
  obtain ⟨stored, good⟩ := Table.mem_selectBy.mp (List.mem_of_mem_head? holds)
  exact ⟨stored, by simpa using good⟩

theorem idemClash_eq_false {core : Core} {id : Uuid} {r : JobRow} (given : r.idempotencyKey = some key)
    (active : r.status.active = true) (free : core.jobs.get? id = none)
    (clear : idemClash core id r = false) : keyHolder core r.queue key = none := by
  refine keyHolder_eq_none.mpr fun other j stored queue same => ?_
  by_contra live
  have member : (other, j) ∈ core.jobs.select fun other j =>
      other ≠ id ∧ j.status.active ∧ j.queue = r.queue ∧ j.idempotencyKey = some key := by
    refine Table.mem_select.mpr ⟨stored, decide_eq_true ⟨fun own => ?_, by simpa using live, queue, same⟩⟩
    rw [own, free] at stored
    cases stored
  simp only [idemClash, given, active, Option.isSome_some, Bool.true_and, decide_eq_false_iff_not, not_not,
    List.length_eq_zero_iff] at clear
  rw [clear] at member
  cases member

/-- How an enqueue call with a key outside workflows ends: it inserts a row when no live job of the
queue holds the key, else it answers with the holder. -/
inductive Converged (env : Env) (a : EnqueueArgs) (key : String) (db : Db) : Uuid × Bool → Db → Prop
  | inserted {id : Uuid} {job : Job} {q : Queue} {db' : Db} (free : keyHolder db.toCore a.queue key = none)
      (new : db.jobs.get? id = none) (stored : db.queues.get? a.queue = some q)
      (row : job.toJobRow = a.row env q .ordinary) (jobs : db'.jobs = db.jobs.put id job) :
      Converged env a key db (id, true) db'
  | held {id : Uuid} {job : Job} {db' : Db} (holds : keyHolder db.toCore a.queue key = some (id, job))
      (jobs : db'.jobs = db.jobs) : Converged env a key db (id, false) db'

theorem insertOrConverge_converged {q : Queue} {tries : ℕ} (given : a.idempotencyKey = some key)
    (stored : db.queues.get? a.queue = some q)
    (run : insertOrConverge env a (a.row env q .ordinary) .ordinary tries db = .ok (answer, db')) :
    Converged env a key db answer db' := by
  obtain ⟨taken, insert⟩ | ⟨holder⟩ := insertOrConverge_inserted run
  · cases taken
    obtain ⟨job, _, _, row, -, clear, new, -, -, rfl⟩ := insertJob_frame insert
    have free := idemClash_eq_false (r := a.row env q .ordinary) given rfl new clear
    exact .inserted free new stored row rfl
  · simp only [convergeOn, given, Option.bind_some, Except.ok.injEq, Option.map_eq_some_iff] at holder
    obtain ⟨⟨id, job⟩, holds, rfl⟩ := holder
    exact .held holds rfl

theorem enqueue_converged (alone : a.workflowId = none) (given : a.idempotencyKey = some key)
    (run : enqueue env a db = .ok (answer, db')) : Converged env a key db answer db' := by
  simp only [enqueue, seq_eq_ok] at run
  obtain ⟨-, -, run⟩ := run
  split at run
  · cases run
  · rename_i q stored
    simp only [seq_eq_ok] at run
    obtain ⟨-, -, m, resolve, run⟩ := run
    have ordinary : m = .ordinary := by
      rw [resolveMembership, alone] at resolve
      exact (Except.ok.inj resolve).symm
    subst ordinary
    simp only [seq_eq_ok] at run
    obtain ⟨-, -, ⟨⟨id, created⟩, last⟩, insert, run⟩ := run
    have outcome := insertOrConverge_converged given stored insert
    cases outcome with
    | inserted free new stored row jobs =>
      simp only [if_true, seq_eq_ok] at run
      obtain ⟨finished, finish, done⟩ := run
      cases done
      exact .inserted free new stored row ((congrArg Core.jobs (finishEnqueue_frame finish).1).trans jobs)
    | held holds jobs =>
      simp only [Bool.false_eq_true, if_false] at run
      cases run
      exact .held holds jobs

end Enqueue

end Taskq
