import Taskq.Invariants.Profiles
import Taskq.Invariants.Stamps
import Taskq.Lifecycle.Targets

/-! Single and bulk admission of one spec without dependencies: one accepts it exactly when the other does, with the
same job and the same event. -/
namespace Taskq
open Relational

variable {env : Env} {spec : Jsonb} {a args : EnqueueArgs} {q : Queue} {queue : String} {db db' : Db}

section Specs

/-- A field of a spec that is there exactly when the argument has a value, and whose text is cast to it. -/
structure Jsonb.Holds {α : Type} (spec : Jsonb) (cast : String → Option α) (key : String) (value : Option α) :
    Prop where
  read : castText cast spec key = .ok value
  given : spec.hasKey key = true → value.isSome = true

/-- The spec of a bulk call that says the same as the arguments of a single call: no other keys, and every optional
field absent or present. -/
structure Expresses (env : Env) (spec : Jsonb) (a : EnqueueArgs) : Prop where
  object : spec.kind = .object
  keys : ∀ key ∈ spec.keys, key ∈ bulkKeys
  jobType : spec.Holds some "job_type" a.jobType
  payload : a.payload = some ((spec.field? "payload").getD (.obj []))
  headers : a.headers = spec.field? "headers"
  priority : spec.Holds env.parseInt "priority" a.priority
  leaseSeconds : spec.Holds env.parseInt "lease_seconds" a.leaseSeconds
  maxAttempts : spec.Holds env.parseInt "max_attempts" a.maxAttempts
  backoffMode : spec.Holds some "backoff_mode" a.backoffMode
  backoffBase : spec.Holds env.parseInt "backoff_base" a.backoffBase
  backoffCap : spec.Holds env.parseInt "backoff_cap" a.backoffCap
  idempotencyKey : spec.Holds some "idempotency_key" a.idempotencyKey
  concurrencyKey : spec.Holds some "concurrency_key" a.concurrencyKey
  affinityKey : spec.Holds some "affinity_key" a.affinityKey
  ttlSeconds : spec.Holds env.parseInt "ttl_seconds" a.ttlSeconds
  flowKey : spec.Holds some "flow_key" a.flowKey
  workflowId : spec.Holds env.parseUuid "workflow_id" a.workflowId
  stepKey : spec.Holds some "step_key" a.stepKey
  scheduledAt : spec.Holds env.parseTime "scheduled_at" a.scheduledAt
  parentJobId : spec.Holds env.parseUuid "parent_job_id" a.parentJobId
  dependsOn : a.dependsOn = []
  /-- The argument is an `integer`. -/
  capRange : a.backoffCap.all (fun n => -2147483648 ≤ n ∧ n ≤ 2147483647) = true

theorem Jsonb.Holds.text {key : String} {value : Option String} (holds : spec.Holds some key value) :
    spec.fieldText? key = value := by
  have read := holds.read
  unfold castText at read
  split at read
  · rename_i missing
    cases read
    exact missing
  · rename_i text
    cases read
    exact text

theorem Jsonb.Holds.isNone {α : Type} {cast : String → Option α} {key : String} {value : Option α}
    (holds : spec.Holds cast key value) : (spec.fieldText? key).isNone = value.isNone :=
  (castText_isNone holds.read).symm

theorem Jsonb.Holds.boundedText {key : String} {n : ℕ} {value v : Option String} (holds : spec.Holds some key value) :
    boundedText spec key n = .ok v ↔ v = value ∧ textOk n value = true := by
  have text := holds.text
  simp only [Taskq.boundedText, seq_eq_ok, ensure_eq_ok, text, Except.ok.injEq]
  constructor
  · rintro ⟨-, bounded, rfl⟩
    refine ⟨rfl, ?_⟩
    cases value with
    | none => rfl
    | some t =>
      have there : spec.hasKey key = true := by
        by_contra absent
        have none' : spec.field? key = none := by
          refine Option.map_eq_none_iff.mpr (List.find?_eq_none.mpr fun f member => ?_)
          simpa using fun same : f.1 = key => absent (List.any_eq_true.mpr ⟨f, member, decide_eq_true same⟩)
        simp [Jsonb.fieldText?, none'] at text
      simpa [textOk] using bounded.resolve_left (not_not.mpr there)
  · rintro ⟨rfl, bounded⟩
    refine ⟨(), ?_, rfl⟩
    cases v with
    | none => exact .inl fun there => absurd (holds.given there) (by simp)
    | some t => exact .inr (by simpa [textOk] using bounded)

theorem Jsonb.Holds.boundedInt {key : String} {low high : ℤ} {message : String} {value v : Option ℤ}
    (holds : spec.Holds env.parseInt key value) (within : -2147483648 ≤ low ∧ high ≤ 2147483647) :
    boundedInt env spec key low high message = .ok v ↔
      v = value ∧ value.all (fun n => low ≤ n ∧ n ≤ high) = true := by
  simp only [Taskq.boundedInt, castInt, holds.read, seq_eq_ok, Except.ok.injEq, exists_eq_left', ensure_eq_ok]
  cases value with
  | none =>
    constructor
    · rintro ⟨_, read, -, -, rfl⟩
      cases read
      exact ⟨rfl, rfl⟩
    · rintro ⟨rfl, -⟩
      exact ⟨none, rfl, (), rfl, rfl⟩
  | some n =>
    simp only [seq_eq_ok, int4_eq_ok, Except.ok.injEq]
    constructor
    · rintro ⟨_, ⟨_, ⟨-, rfl⟩, rfl⟩, -, bounded, rfl⟩
      exact ⟨rfl, bounded⟩
    · rintro ⟨rfl, bounded⟩
      have range : low ≤ n ∧ n ≤ high := by simpa using bounded
      exact ⟨_, ⟨_, ⟨by omega, rfl⟩, rfl⟩, (), bounded, rfl⟩

theorem Jsonb.Holds.castInt {key : String} {value v : Option ℤ} (holds : spec.Holds env.parseInt key value)
    (range : value.all (fun n => -2147483648 ≤ n ∧ n ≤ 2147483647) = true) :
    castInt env spec key = .ok v ↔ v = value := by
  simp only [Taskq.castInt, holds.read, seq_eq_ok, Except.ok.injEq, exists_eq_left']
  cases value with
  | none =>
    constructor
    · intro read
      cases read
      rfl
    · rintro rfl
      rfl
  | some n =>
    have inside : -2147483648 ≤ n ∧ n ≤ 2147483647 := by simpa using range
    simp only [seq_eq_ok, int4_eq_ok, Except.ok.injEq]
    constructor
    · rintro ⟨_, ⟨-, rfl⟩, rfl⟩
      rfl
    · rintro rfl
      exact ⟨n, ⟨inside, rfl⟩, rfl⟩

theorem Jsonb.Holds.cast {α : Type} {cast : String → Option α} {key : String} {value v : Option α}
    (holds : spec.Holds cast key value) : castText cast spec key = .ok v ↔ v = value := by
  rw [holds.read, Except.ok.injEq, eq_comm]

theorem checkBulkKeys_eq_ok {keys : List String} : checkBulkKeys keys = .ok () ↔ ∀ key ∈ keys, key ∈ bulkKeys := by
  induction keys with
  | nil => simp [checkBulkKeys]
  | cons key keys ih =>
    simp only [checkBulkKeys, seq_eq_ok, ensure_eq_ok, ih, List.contains_iff_mem, List.forall_mem_cons]
    constructor
    · rintro ⟨-, -, -, known, rest⟩
      exact ⟨known, rest⟩
    · rintro ⟨known, rest⟩
      refine ⟨(), ?_, (), known, rest⟩
      rintro rfl
      exact absurd known (by decide)

/-- The bulk call reads the arguments, and makes the checks of the single call. -/
theorem Expresses.parse (expresses : Expresses env spec a) (profiled : q.Profiled) :
    parseSpec env a.queue q spec = .ok args ↔ args = a ∧ checkEnqueue a = .ok () ∧
      a.backoffBase.getD q.defaultBackoffBase ≤ a.backoffCap.getD q.defaultBackoffCap ∧ a.workflowId ≠ some 0 := by
  have priority {m : String} {v : Option ℤ} : boundedInt env spec "priority" 0 1000 m = .ok v ↔ _ :=
    expresses.priority.boundedInt (by decide)
  have lease {m : String} {v : Option ℤ} : boundedInt env spec "lease_seconds" 15 86400 m = .ok v ↔ _ :=
    expresses.leaseSeconds.boundedInt (by decide)
  have attempts {m : String} {v : Option ℤ} : boundedInt env spec "max_attempts" 1 100 m = .ok v ↔ _ :=
    expresses.maxAttempts.boundedInt (by decide)
  have base {m : String} {v : Option ℤ} : boundedInt env spec "backoff_base" 1 86400 m = .ok v ↔ _ :=
    expresses.backoffBase.boundedInt (by decide)
  have ttl {m : String} {v : Option ℤ} : boundedInt env spec "ttl_seconds" 1 31536000 m = .ok v ↔ _ :=
    expresses.ttlSeconds.boundedInt (by decide)
  simp only [parseSpec, checkEnqueue, seq_eq_ok, ensure_eq_ok, expresses.jobType.text, priority, lease, attempts, base,
    ttl, expresses.backoffMode.text, expresses.stepKey.text, expresses.workflowId.isNone,
    expresses.idempotencyKey.boundedText, expresses.concurrencyKey.boundedText, expresses.affinityKey.boundedText,
    expresses.flowKey.boundedText, expresses.backoffCap.castInt expresses.capRange,
    expresses.workflowId.cast, expresses.scheduledAt.cast, expresses.parentJobId.cast, expresses.payload,
    expresses.dependsOn, ← expresses.headers]
  have headers : a.headers.all (fun h => h.kind = .object ∧ octetLength h.text ≤ 8192) = true ↔
      a.headers.all (·.kind = .object) = true ∧ withinBytes 8192 a.headers = true := by
    cases a.headers <;> simp [withinBytes]
  constructor
  · rintro ⟨_, keys, _, typed, _, object, _, size, _, headed, _, sized, _, ⟨rfl, ranked⟩, _, ⟨rfl, leased⟩,
      _, ⟨rfl, tried⟩, _, mode, _, ⟨rfl, based⟩, _, rfl, _, capped, _, ⟨rfl, keyed⟩, _, own, _, ⟨rfl, concurrent⟩,
      _, ⟨rfl, affine⟩, _, ⟨rfl, lived⟩, _, ⟨rfl, flows⟩, _, together, _, rfl, _, named, _, step, _, rfl, _, rfl,
      finish⟩
    cases finish
    have positive : a.backoffCap.all (fun n => decide (1 ≤ n)) = true := by
      cases cap : a.backoffCap with
      | none => rfl
      | some n =>
        have low : 1 ≤ a.backoffBase.getD q.defaultBackoffBase := by
          cases base' : a.backoffBase with
          | none => exact profiled.backoff.1
          | some m =>
            rw [base'] at based
            exact (of_decide_eq_true based).1
        rw [cap] at capped
        exact decide_eq_true (low.trans capped)
    exact ⟨by rw [← expresses.payload, ← expresses.dependsOn], ⟨(), lived, (), flows, (), typed, (), ranked, (),
      leased, (), tried, (), mode, (), based, (), positive, (), keyed, (), own, (), concurrent, (), affine, (),
      decide_eq_true ⟨object, size⟩, (), headers.mpr ⟨headed, sized⟩, (), together, (), .inr trivial, (), step,
      by simp⟩, capped, named⟩
  · rintro ⟨rfl, ⟨_, lived, _, flows, _, typed, _, ranked, _, leased, _, tried, _, mode, _, based, _, -, _, keyed, _,
      own, _, concurrent, _, affine, _, payload, _, head, _, together, _, -, _, step, -⟩, capped, named⟩
    obtain ⟨object, size⟩ := of_decide_eq_true payload
    obtain ⟨headed, sized⟩ := headers.mp head
    exact ⟨(), checkBulkKeys_eq_ok.mpr expresses.keys, (), typed, (), object, (), size, (), headed, (), sized, _,
      ⟨rfl, ranked⟩, _, ⟨rfl, leased⟩, _, ⟨rfl, tried⟩, (), mode, _, ⟨rfl, based⟩, _, rfl, (), capped, _, ⟨rfl, keyed⟩,
      (), own, _, ⟨rfl, concurrent⟩, _, ⟨rfl, affine⟩, _, ⟨rfl, lived⟩, _, ⟨rfl, flows⟩, (), together, _, rfl, (), named,
      (), step, _, rfl, _, rfl, by rw [← expresses.payload, ← expresses.dependsOn]⟩

end Specs

section Written

variable (env : Env) (queue : String) (q : Queue) (spec : Jsonb)

/-- `(spec->>key)::integer`, `::uuid` and `::timestamptz`, after the checks. -/
def specInt (key : String) : Option ℤ := (castInt env spec key).toOption.join

def specUuid (key : String) : Option Uuid := (castText env.parseUuid spec key).toOption.join

def specTime (key : String) : Option Time := (castText env.parseTime spec key).toOption.join

/-- The intent hash as `enqueue_many` writes it. -/
def specIntentHash : String :=
  let base : Jsonb := .build [
    ("queue", .str queue), ("job_type", .ofText? (spec.fieldText? "job_type")),
    ("payload", (spec.field? "payload").getD (.obj [])), ("priority", intJson (specInt env spec "priority")),
    ("scheduled_at", .ofText? ((specTime env spec "scheduled_at").map env.timeText)),
    ("idempotency_key", .ofText? (spec.fieldText? "idempotency_key")),
    ("concurrency_key", .ofText? (spec.fieldText? "concurrency_key")),
    ("affinity_key", .ofText? (spec.fieldText? "affinity_key")),
    ("max_attempts", intJson (specInt env spec "max_attempts")),
    ("lease_seconds", intJson (specInt env spec "lease_seconds")),
    ("backoff_mode", .ofText? (spec.fieldText? "backoff_mode")),
    ("backoff_base", intJson (specInt env spec "backoff_base")),
    ("backoff_cap", intJson (specInt env spec "backoff_cap")), ("depends_on", .arr []),
    ("parent_job_id", ((specUuid env spec "parent_job_id").map uuidJson).getD .null),
    ("headers", (spec.field? "headers").getD .null)]
  let limits : Jsonb :=
    if (spec.fieldText? "ttl_seconds").isSome ∨ (spec.fieldText? "flow_key").isSome then
      .build [("ttl_seconds", intJson (specInt env spec "ttl_seconds")),
        ("flow_key", .ofText? (spec.fieldText? "flow_key"))]
    else .obj []
  env.sha256 (base.merge limits).text

/-- The row as the INSERT of `enqueue_many` writes it. -/
def specRow (workflow : Option (Uuid × Workflow)) : JobRow :=
  let scheduled := (specTime env spec "scheduled_at").getD env.now
  let ttl := specInt env spec "ttl_seconds" <|> q.defaultTtlSeconds
  { JobRow.defaults env with
    queue := queue, jobType := (spec.fieldText? "job_type").getD "", status := .queued
    priority := (specInt env spec "priority").getD q.defaultPriority
    payload := (spec.field? "payload").getD (.obj []), headers := spec.field? "headers"
    idempotencyKey := spec.fieldText? "idempotency_key", concurrencyKey := spec.fieldText? "concurrency_key"
    affinityKey := spec.fieldText? "affinity_key", workflowId := workflow.map (·.1)
    stepKey := spec.fieldText? "step_key", workflowIntentHash := workflow.map fun _ => specIntentHash env queue spec
    continuationPolicyHash := workflow.bind (·.2.continuationPolicyHash)
    parentJobId := specUuid env spec "parent_job_id", pendingDeps := 0, scheduledAt := scheduled
    leaseSeconds := (specInt env spec "lease_seconds").getD q.defaultLeaseSeconds
    maxAttempts := (specInt env spec "max_attempts").getD q.defaultMaxAttempts
    backoffMode := ((spec.fieldText? "backoff_mode").bind BackoffMode.ofText?).getD q.defaultBackoffMode
    backoffBaseSeconds := (specInt env spec "backoff_base").getD q.defaultBackoffBase
    backoffCapSeconds := (specInt env spec "backoff_cap").getD q.defaultBackoffCap
    expiresAt := ttl.map fun n => scheduled + seconds n, flowKey := spec.fieldText? "flow_key" }

variable {env queue q spec}

theorem boundedInt_eq_ok {key m : String} {low high : ℤ} {v : Option ℤ}
    (run : boundedInt env spec key low high m = .ok v) :
    specInt env spec key = v ∧ v.isSome = (spec.fieldText? key).isSome := by
  simp only [boundedInt, castInt, seq_eq_ok] at run
  obtain ⟨_, ⟨read, text, cast⟩, -, -, finish⟩ := run
  cases finish
  have given := castText_isNone text
  have whole : castInt env spec key = .ok v := seq_eq_ok.mpr ⟨read, text, cast⟩
  refine ⟨by rw [specInt, whole]; rfl, ?_⟩
  cases read with
  | none =>
    cases cast
    cases there : spec.fieldText? key <;> simp_all
  | some n =>
    obtain ⟨_, -, finish⟩ := seq_eq_ok.mp cast
    cases finish
    cases there : spec.fieldText? key <;> simp_all

/-- What a bulk call reads out of a spec. -/
theorem parseSpec_reads (run : parseSpec env queue q spec = .ok args) :
    args = ⟨queue, spec.fieldText? "job_type", some ((spec.field? "payload").getD (.obj [])),
      specInt env spec "priority", specTime env spec "scheduled_at", spec.fieldText? "idempotency_key",
      spec.fieldText? "concurrency_key", spec.fieldText? "affinity_key", specInt env spec "max_attempts",
      specInt env spec "lease_seconds", spec.fieldText? "backoff_mode", specInt env spec "backoff_base",
      specInt env spec "backoff_cap", [], specUuid env spec "workflow_id", spec.fieldText? "step_key",
      specUuid env spec "parent_job_id", spec.field? "headers", specInt env spec "ttl_seconds",
      spec.fieldText? "flow_key"⟩ ∧ args.ttlSeconds.isSome = (spec.fieldText? "ttl_seconds").isSome := by
  simp only [parseSpec, seq_eq_ok, ensure_eq_ok] at run
  obtain ⟨-, -, -, -, -, -, -, -, -, -, -, -, priority, ranked, lease, leased, attempts, tried, -, -, base, based, cap,
    capped, -, -, key, keyed, -, -, concurrency, concurrent, affinity, affine, ttl, lived, flow, flows, -, -, workflow,
    named, -, -, -, -, scheduled, timed, parent, parented, finish⟩ := run
  cases finish
  have capRead : specInt env spec "backoff_cap" = cap := by rw [specInt, capped]; rfl
  have workflowRead : specUuid env spec "workflow_id" = workflow := by rw [specUuid, named]; rfl
  have timeRead : specTime env spec "scheduled_at" = scheduled := by rw [specTime, timed]; rfl
  have parentRead : specUuid env spec "parent_job_id" = parent := by rw [specUuid, parented]; rfl
  refine ⟨?_, ?_⟩
  · rw [(boundedInt_eq_ok ranked).1, (boundedInt_eq_ok leased).1, (boundedInt_eq_ok tried).1,
      (boundedInt_eq_ok based).1, (boundedInt_eq_ok lived).1, capRead, workflowRead, timeRead, parentRead, boundedText_eq_ok keyed,
      boundedText_eq_ok concurrent, boundedText_eq_ok affine, boundedText_eq_ok flows]
  · exact (boundedInt_eq_ok lived).2

/-- The hash of a slot is the one that `enqueue_many` writes. -/
theorem intentHash_written (run : parseSpec env queue q spec = .ok args) :
    intentHash env args [] = specIntentHash env queue spec := by
  obtain ⟨reads, lived⟩ := parseSpec_reads run
  have flows : args.flowKey = spec.fieldText? "flow_key" := by rw [reads]
  unfold intentHash specIntentHash
  rw [lived, flows, reads]
  rfl

/-- The row of a slot is the one that `enqueue_many` writes. -/
theorem row_written {workflow : Option (Uuid × Workflow)} {index : ℤ} {id : Uuid} {answer : Option (Uuid × Bool)}
    (run : parseSpec env queue q spec = .ok args) (joins : args.workflowId = workflow.map (·.1)) :
    BulkSlot.row env q workflow ⟨index, args, id, answer⟩ = specRow env queue q spec workflow := by
  have hash := intentHash_written run
  have reads := (parseSpec_reads run).1
  cases workflow with
  | none =>
    unfold BulkSlot.row BulkSlot.membership EnqueueArgs.row specRow
    dsimp only [Membership.live]
    rw [joins, reads]
    rfl
  | some named =>
    obtain ⟨w, workflow⟩ := named
    unfold BulkSlot.row BulkSlot.membership EnqueueArgs.row specRow
    dsimp only [Membership.live]
    rw [joins, hash, reads]
    rfl

end Written

section Errors

/-- The call ends in a unique violation. -/
def Collides {α : Type} (call : Call α) : Prop := ∃ e, call = .error e ∧ e.state = .uniqueViolation

theorem storeJob_collides {r : JobRow} : ¬Collides (storeJob r) := by
  rintro ⟨e, raised, state⟩
  have range {n : ℤ} : int2 n ≠ .error e := by
    unfold int2
    split_ifs
    · exact fun h => nomatch h
    · rintro ⟨⟩
      cases state
  simp only [storeJob, seq_eq_error, range, false_or] at raised
  obtain ⟨_, -, _, -, _, -, _, -, _, -, _, -, _, -, raised⟩ := raised
  split_ifs at raised
  cases raised
  cases state

theorem admissionOwnerGuardInsert_collides {r : JobRow} : ¬Collides (admissionOwnerGuardInsert env r db) := by
  rintro ⟨e, raised, state⟩
  unfold admissionOwnerGuardInsert at raised
  split at raised
  · cases raised
  · simp only [seq_eq_error, ensure_eq_error] at raised
    obtain ⟨-, rfl⟩ | ⟨-, -, -, rfl⟩ := raised <;> cases state

theorem insertWorkflowMemberCounts_collides {r : JobRow} {counts : Table Uuid MemberCounts} :
    ¬Collides (insertWorkflowMemberCounts r counts) := by
  rintro ⟨e, raised, state⟩
  unfold insertWorkflowMemberCounts countEnter putCounts at raised
  split at raised
  · cases raised
  · split at raised
    · simp only [seq_eq_error, ensure_eq_error] at raised
      obtain ⟨-, rfl⟩ | ⟨-, -, raised⟩ := raised
      · cases state
      · cases raised
    · cases raised
      cases state

theorem reserveWorkflowMembers_collides {w : Uuid} {count : ℤ} {policy : Option String} :
    ¬Collides (reserveWorkflowMembers w count policy db) := by
  rintro ⟨e, raised, state⟩
  simp only [reserveWorkflowMembers, seq_eq_error, ensure_eq_error] at raised
  obtain ⟨-, rfl⟩ | ⟨-, -, raised⟩ := raised
  · cases state
  · split at raised
    · cases raised
      cases state
    · simp only [seq_eq_error, ensure_eq_error] at raised
      obtain ⟨-, rfl⟩ | ⟨-, -, raised⟩ := raised
      · cases state
      · split at raised
        · cases raised
        · cases raised
          cases state
        · split_ifs at raised
          · simp only [seq_eq_error, putCounts, ensure_eq_error] at raised
            obtain (⟨-, rfl⟩ | ⟨_, -, raised⟩) | ⟨_, -, raised⟩ := raised
            · cases state
            · cases raised
            · cases raised
          · cases raised
            cases state
        · cases raised
          cases state

/-- An insert under a fresh id and a free step only stops at the key. -/
theorem insertJob_collides {id : Uuid} {r : JobRow} (fresh : db.jobs.get? id = none)
    (free : stepTaken db.toCore r = false) : ¬Collides (insertJob env id r db) := by
  rintro ⟨e, raised, state⟩
  simp only [insertJob, seq_eq_error] at raised
  obtain raised | ⟨-, -, raised⟩ := raised
  · exact admissionOwnerGuardInsert_collides ⟨e, raised, state⟩
  obtain raised | ⟨_, -, raised⟩ := raised
  · exact storeJob_collides ⟨e, raised, state⟩
  split at raised
  · cases raised
  simp only [seq_eq_error, ensure_eq_error, fresh, free, Option.isNone_none, Bool.false_eq_true, not_true_eq_false,
    not_false_eq_true, false_and, false_or] at raised
  obtain ⟨-, -, -, -, ⟨-, rfl⟩ | ⟨-, -, ⟨-, rfl⟩ | ⟨-, -, raised | ⟨_, -, raised⟩⟩⟩⟩ := raised
  · cases state
  · cases state
  · exact insertWorkflowMemberCounts_collides ⟨e, raised, state⟩
  · cases raised

end Errors

section Membership

/-- What the insert of a new job relies on: its id is unused, the nil workflow does not exist, no occurrence is of this
transaction, and the defaults of queues are checked. -/
structure Unspent (env : Env) (db : Db) : Prop where
  fresh : db.jobs.get? db.nextUuid = none
  named : db.workflows.get? 0 = none
  unproven : ∀ db' : Db, db'.scheduling = db.scheduling → ∀ owner r, occurrenceProvenance env db' owner r = false
  profiled : ∀ name q, db.queues.get? name = some q → q.Profiled

/-- A row under a key of a producer continues no job. -/
theorem continuationProvenance_producer (owner : ℕ) (db : Db) {r : JobRow} (producer : engineReserved r.idempotencyKey = false) :
    continuationProvenance db owner r = false := by
  unfold continuationProvenance
  split
  · rename_i parent key _ keyed
    have outside : isPrefixedStep (chainPrefix parent) key = false := by
      rw [keyed] at producer
      have before : ¬"chain:".toList <+: key.toList := by
        rw [← List.isPrefixOf_iff_prefix, Bool.not_eq_true]
        exact producer
      have longer : ¬(chainPrefix parent).toList <+: key.toList := by
        refine fun here => before (List.IsPrefix.trans ?_ here)
        simp only [chainPrefix, String.toList_append, List.append_assoc]
        exact List.prefix_append _ _
      simp [isPrefixedStep, hasPrefix, longer]
    rw [outside, Bool.false_and]
  · rfl

/-- A producer that passes the guard of an insert may admit into the queue. -/
theorem Unspent.owned {r : JobRow} (unspent : Unspent env db) (producer : engineReserved r.idempotencyKey = false)
    (queues : db'.queues = db.queues) (scheduling : db'.scheduling = db.scheduling)
    (passes : admissionOwnerGuardInsert env r db' = .ok ()) : checkAdmissionOwner env r.queue db = .ok () := by
  unfold admissionOwnerGuardInsert at passes
  unfold checkAdmissionOwner
  rw [queues] at passes
  cases bound : (db.queues.get? r.queue).bind (·.admissionOwnerOid) with
  | none => rfl
  | some owner =>
    rw [bound] at passes
    have foreign := continuationProvenance_producer owner db' producer
    simp only [seq_eq_ok, ensure_eq_ok, unspent.unproven db' scheduling, foreign, Bool.false_eq_true, and_false,
      or_false] at passes ⊢
    exact passes

/-- The one slot of a bulk call with these arguments. -/
def slotOf (a : EnqueueArgs) (db : Db) : BulkSlot := ⟨1, a, db.nextUuid, none⟩

/-- What a new job without dependencies joins: nothing, or a workflow that takes its step. -/
inductive Joins (a : EnqueueArgs) (db : Db) : Option (Uuid × Workflow) → Prop
  | alone (ordinary : a.workflowId = none) : Joins a db none
  | member {w : Uuid} {workflow : Workflow} (given : a.workflowId = some w)
      (stored : db.workflows.get? w = some workflow) (declared : a.queue ∈ workflow.declaredQueues)
      (free : stepHolder db.toCore w a.stepKey = none) (unsealed : workflow.sealedAt.isNone = true) :
      Joins a db (some (w, workflow))

/-- How the admission of a spec ends, and the tables before its event. -/
inductive Admits (env : Env) (a : EnqueueArgs) (q : Queue) (db : Db) : Uuid × Bool → Db → Prop
  | replayed {w id : Uuid} {workflow : Workflow} {member : Job}
      (owned : checkAdmissionOwner env a.queue db = .ok ()) (given : a.workflowId = some w)
      (stored : db.workflows.get? w = some workflow) (declared : a.queue ∈ workflow.declaredQueues)
      (there : stepHolder db.toCore w a.stepKey = some (id, member))
      (same : sameStep workflow (intentHash env a []) member.toJobRow = true) : Admits env a q db (id, false) db
  | held {key : String} {id : Uuid} {job : Job} (alone : a.workflowId = none)
      (room : q.maxDepth.all (fun n => queueDepth db a.queue < n) = true) (given : a.idempotencyKey = some key)
      (holds : keyHolder db.toCore a.queue key = some (id, job))
      (run : insertJob env db.nextUuid ((slotOf a db).row env q none) { db with nextUuid := db.nextUuid + 1 } = .ok none) :
      Admits env a q db (id, false) { db with nextUuid := db.nextUuid + 1 }
  | created {workflow : Option (Uuid × Workflow)} {reserved inserted : Db} (joins : Joins a db workflow)
      (room : q.maxDepth.all (fun n => queueDepth db a.queue < n) = true)
      (taken : reserveSlots workflow 1 { db with nextUuid := db.nextUuid + 1 } = .ok reserved)
      (run : insertJob env db.nextUuid ((slotOf a db).row env q workflow) reserved = .ok (some inserted)) :
      Admits env a q db (db.nextUuid, true) inserted

theorem reserveSlots_one (env : Env) (workflow : Option (Uuid × Workflow)) (slot : BulkSlot) :
    reserveSlots workflow 1 db = reservePlace (slot.membership env workflow) db := by
  cases workflow <;> rfl

end Membership

section Single

/-- The insert fails only at the key of a live job, outside workflows. -/
theorem insert_none {workflow : Option (Uuid × Workflow)} {reserved : Db}
    (taken : reserveSlots workflow 1 { db with nextUuid := db.nextUuid + 1 } = .ok reserved)
    (run : insertJob env db.nextUuid ((slotOf a db).row env q workflow) reserved = .ok none) :
    ∃ key id job, a.idempotencyKey = some key ∧ keyHolder db.toCore a.queue key = some (id, job) := by
  obtain ⟨counts, rfl⟩ := reserveSlots_frame taken
  have clash := insertJob_none run
  simp only [idemClash, Bool.and_eq_true, decide_eq_true_eq] at clash
  obtain ⟨⟨given, -⟩, others⟩ := clash
  obtain ⟨key, keyed⟩ := Option.isSome_iff_exists.mp given
  obtain ⟨⟨other, job⟩, member⟩ := List.exists_mem_of_length_pos (Nat.pos_of_ne_zero others)
  obtain ⟨stored, good⟩ := Table.mem_select.mp member
  have good : _ ∧ _ ∧ _ ∧ _ := of_decide_eq_true good
  have held : keyHolder db.toCore a.queue key ≠ none := fun none' =>
    absurd good.2.1 (by
      rw [keyHolder_eq_none.mp none' other job stored good.2.2.1 (good.2.2.2.trans keyed)]
      exact Bool.false_ne_true)
  obtain ⟨⟨id, holder⟩, holds⟩ := Option.ne_none_iff_exists'.mp held
  exact ⟨key, id, holder, keyed, holds⟩

theorem stepHolder_eq_none {core : Core} {w : Uuid} {step : Option String} (free : stepHolder core w step = none)
    {id : Uuid} {job : Job} (stored : core.jobs.get? id = some job) : ¬(job.workflowId = some w ∧ job.stepKey = step) := by
  intro same
  have none' := List.head?_eq_none_iff.mp free
  have member : (id, job) ∈ core.jobs.select fun _ j => j.workflowId = some w ∧ j.stepKey = step :=
    Table.mem_select.mpr ⟨stored, decide_eq_true same⟩
  rw [none'] at member
  cases member

theorem Joins.stepTaken {workflow : Option (Uuid × Workflow)} {core : Core} (joins : Joins a db workflow)
    (jobs : core.jobs = db.jobs) : Taskq.stepTaken core ((slotOf a db).row env q workflow) = false := by
  cases joins with
  | alone ordinary =>
    have none' : ((slotOf a db).row env q none).workflowId = none := ordinary
    simp [Taskq.stepTaken, none']
  | @member w workflow given stored declared free unsealed =>
    have same : ((slotOf a db).row env q (some (w, workflow))).workflowId = some w := given
    rw [Taskq.stepTaken, Bool.and_eq_false_iff]
    refine .inr (decide_eq_false (not_not.mpr (List.length_eq_zero_iff.mpr (List.eq_nil_iff_forall_not_mem.mpr ?_))))
    intro ⟨id, job⟩ member
    obtain ⟨here, good⟩ := Table.mem_select.mp member
    exact stepHolder_eq_none free (jobs ▸ here) (same ▸ of_decide_eq_true good)

/-- A try that inserts nothing has met the key. -/
theorem tryInsert_eq_none {workflow : Option (Uuid × Workflow)} (unspent : Unspent env db) (joins : Joins a db workflow)
    (run : tryInsert env db.nextUuid ((slotOf a db).row env q workflow) ((slotOf a db).membership env workflow)
      { db with nextUuid := db.nextUuid + 1 } = .ok none) :
    ∃ reserved, reserveSlots workflow 1 { db with nextUuid := db.nextUuid + 1 } = .ok reserved ∧
      insertJob env db.nextUuid ((slotOf a db).row env q workflow) reserved = .ok none := by
  rw [tryInsert, ← reserveSlots_one] at run
  split at run
  · rename_i attempt
    cases run
    exact seq_eq_ok.mp attempt
  · rename_i e attempt
    split at run
    · rename_i unique
      obtain raised | ⟨reserved, taken, raised⟩ := seq_eq_error.mp attempt
      · unfold reserveSlots at raised
        split at raised
        · rw [if_pos Nat.one_pos] at raised
          exact absurd ⟨e, raised, unique⟩ reserveWorkflowMembers_collides
        · cases raised
      · obtain ⟨counts, rfl⟩ := reserveSlots_frame taken
        refine absurd ⟨e, raised, unique⟩ (insertJob_collides ?_ ?_)
        · exact unspent.fresh
        · exact joins.stepTaken rfl
    · cases run

theorem insertOrConverge_admits {workflow : Option (Uuid × Workflow)} {tries : ℕ} {answer : Uuid × Bool}
    (unspent : Unspent env db) (joins : Joins a db workflow)
    (room : q.maxDepth.all (fun n => queueDepth db a.queue < n) = true)
    (run : insertOrConverge env a ((slotOf a db).row env q workflow) ((slotOf a db).membership env workflow) (tries + 1)
      db = .ok (answer, db')) : Admits env a q db answer db' ∧ (answer.2 = true →
        ∃ job, db'.jobs.get? answer.1 = some job ∧ job.toJobRow = (slotOf a db).row env q workflow) := by
  simp only [insertOrConverge, newUuid, seq_eq_ok] at run
  obtain ⟨result, attempt, run⟩ := run
  cases result with
  | some inserted =>
    cases run
    obtain ⟨reserved, taken, insert⟩ := tryInsert_eq_some attempt
    obtain ⟨job, _, _, row, -, -, -, -, -, rfl⟩ := insertJob_frame insert
    exact ⟨.created joins room ((reserveSlots_one env workflow _).trans taken) insert,
      fun _ => ⟨job, Table.get?_put_self _ _ _, row⟩⟩
  | none =>
    obtain ⟨reserved, taken, insert⟩ := tryInsert_eq_none unspent joins attempt
    obtain ⟨key, id, job, given, holds⟩ := insert_none taken insert
    simp only [seq_eq_ok] at run
    obtain ⟨found, converge, run⟩ := run
    cases joins with
    | alone ordinary =>
      cases taken
      have same : found = some id := by
        simp only [BulkSlot.membership, convergeOn, given, Option.bind_some, Except.ok.injEq] at converge
        exact converge.symm.trans (congrArg (Option.map (·.1)) holds)
      subst same
      cases run
      exact ⟨.held ordinary room given holds insert, fun none' => by cases none'⟩
    | @member w workflow joined stored declared free unsealed =>
      exfalso
      have free' : stepHolder { db with nextUuid := db.nextUuid + 1 }.toCore w a.stepKey = none := free
      have holds' : keyHolder { db with nextUuid := db.nextUuid + 1 }.toCore a.queue key = some (id, job) := holds
      simp only [slotOf, BulkSlot.membership, convergeOn, free', given, Option.bind_some, holds', seq_eq_ok,
        ensure_eq_ok] at converge
      obtain ⟨-, ⟨same, step, -⟩, -⟩ := converge
      exact stepHolder_eq_none free (keyHolder_eq_some holds).1 ⟨same, step⟩

/-- A producer that may insert, or meets the key, may admit into the queue. -/
theorem Admits.owned {answer : Uuid × Bool} (admits : Admits env a q db answer db') (unspent : Unspent env db)
    (admissible : Admissible a) : checkAdmissionOwner env a.queue db = .ok () := by
  cases admits with
  | replayed owned => exact owned
  | held alone room given holds run =>
    obtain ⟨⟨⟩, passes, -⟩ := seq_eq_ok.mp run
    exact unspent.owned admissible.1 rfl rfl passes
  | created joins room taken run =>
    obtain ⟨counts, rfl⟩ := reserveSlots_frame taken
    obtain ⟨⟨⟩, passes, -⟩ := seq_eq_ok.mp run
    exact unspent.owned admissible.1 rfl rfl passes

/-- A single call that goes through, once its arguments are checked. -/
structure Accepts (env : Env) (a : EnqueueArgs) (q : Queue) (db : Db) : Prop where
  checked : checkEnqueue a = .ok ()
  stored : db.queues.get? a.queue = some q
  capped : a.backoffBase.getD q.defaultBackoffBase ≤ a.backoffCap.getD q.defaultBackoffCap
  owned : checkAdmissionOwner env a.queue db = .ok ()

theorem liveDependencies_nil (w : Uuid) (db : Db) : liveDependencies w [] db = .ok [] := rfl

/-- The workflow branch of a single call without dependencies. -/
theorem resolveMembership_admits {m : Membership} (deps : a.dependsOn = []) (run : resolveMembership env a db = .ok m) :
    (∃ id w workflow member, m = .existing id ∧ checkAdmissionOwner env a.queue db = .ok () ∧ a.workflowId = some w ∧
      db.workflows.get? w = some workflow ∧ a.queue ∈ workflow.declaredQueues ∧
      stepHolder db.toCore w a.stepKey = some (id, member) ∧
      sameStep workflow (intentHash env a []) member.toJobRow = true) ∨
    ∃ workflow, Joins a db workflow ∧ m = (slotOf a db).membership env workflow := by
  unfold resolveMembership at run
  split at run
  · rename_i ordinary
    cases run
    exact .inr ⟨none, .alone ordinary, rfl⟩
  · rename_i w given
    simp only [seq_eq_ok] at run
    obtain ⟨⟨⟩, owned, run⟩ := run
    split at run
    · cases run
    · rename_i workflow stored
      simp only [seq_eq_ok, ensure_eq_ok, deps, List.filterMap_nil, List.insertionSort_nil] at run
      obtain ⟨-, declared, run⟩ := run
      split at run
      · rename_i id member there
        simp only [seq_eq_ok, ensure_eq_ok] at run
        obtain ⟨-, same, finish⟩ := run
        cases finish
        exact .inl ⟨id, w, workflow, member, rfl, owned, given, stored, declared, there, same⟩
      · rename_i free
        simp only [seq_eq_ok, ensure_eq_ok, liveDependencies_nil, Except.ok.injEq, exists_eq_left'] at run
        obtain ⟨-, unsealed, rfl⟩ := run
        exact .inr ⟨some (w, workflow), .member given stored declared free unsealed, rfl⟩

theorem Admits.of_single {id : Uuid} {created : Bool} (unspent : Unspent env db) (deps : a.dependsOn = [])
    (run : enqueue env a db = .ok ((id, created), db')) : ∃ q last, Accepts env a q db ∧
      Admits env a q db (id, created) last ∧ (created = false → db' = last) ∧
      (created = true → ∃ job, last.jobs.get? id = some job ∧ finishEnqueue env id job.toJobRow [] q last = .ok db') := by
  simp only [enqueue, seq_eq_ok] at run
  obtain ⟨⟨⟩, checked, run⟩ := run
  split at run
  · cases run
  · rename_i q stored
    simp only [seq_eq_ok, ensure_eq_ok] at run
    obtain ⟨-, capped, m, resolve, run⟩ := run
    obtain ⟨existing, w, workflow, member, rfl, owned, given, there, declared, holder, same⟩ | ⟨workflow, joins, rfl⟩ :=
      resolveMembership_admits deps resolve
    · cases run
      exact ⟨q, _, ⟨checked, stored, capped, owned⟩, .replayed owned given there declared holder same, fun _ => rfl,
        fun none => by cases none⟩
    · split at run
      · rename_i existing same
        cases workflow <;> cases same
      · simp only [seq_eq_ok, ensure_eq_ok] at run
        obtain ⟨-, room, ⟨⟨inserted, fresh⟩, last⟩, insert, run⟩ := run
        obtain ⟨admits, stores⟩ := insertOrConverge_admits unspent joins room insert
        have owned := admits.owned unspent (checkEnqueue_admissible checked).1
        have passes : Accepts env a q db := ⟨checked, stored, capped, owned⟩
        cases fresh with
        | false =>
          cases run
          exact ⟨q, last, passes, admits, fun _ => rfl, fun none => by cases none⟩
        | true =>
          simp only [if_true, seq_eq_ok] at run
          obtain ⟨finished, finish, done⟩ := run
          cases done
          rw [membership_live] at finish
          obtain ⟨job, here, row⟩ := stores rfl
          exact ⟨q, last, passes, admits, fun none => (by cases none), fun _ => ⟨job, here, row ▸ finish⟩⟩

/-- The database after the event of a created job, and its notification when it has one. -/
theorem finishEnqueue_created (env : Env) (id : Uuid) (r : JobRow) (q : Queue) (db : Db) : ∃ notices,
    finishEnqueue env id r [] q db = .ok { insertEvent env id none "enqueued" "system" none
      (some (.build [("status", .str r.status.text), ("scheduled_at", .str (env.timeText r.scheduledAt))])) db with
      notices := notices } := by
  simp only [finishEnqueue, emitEvent_quiet (by decide : "enqueued" ≠ "failed") (by decide : "enqueued" ≠ "cancelled"),
    List.map_nil, List.toFinset_nil, Finset.union_empty, bind, Except.bind]
  split_ifs
  · exact ⟨_, rfl⟩
  · exact ⟨db.notices, rfl⟩

theorem Joins.resolve {workflow : Option (Uuid × Workflow)} (joins : Joins a db workflow) (deps : a.dependsOn = [])
    (owned : checkAdmissionOwner env a.queue db = .ok ()) :
    resolveMembership env a db = .ok ((slotOf a db).membership env workflow) := by
  unfold resolveMembership
  cases joins with
  | alone ordinary =>
    rw [ordinary]
    rfl
  | member given stored declared free unsealed =>
    simp only [given, seq_eq_ok, owned, stored, ensure_eq_ok, deps, List.filterMap_nil, List.insertionSort_nil, free]
    exact ⟨(), trivial, (), declared, (), unsealed, [], rfl, rfl⟩

theorem Admits.single {answer : Uuid × Bool} (admits : Admits env a q db answer db') (passes : Accepts env a q db)
    (deps : a.dependsOn = []) : ∃ one, enqueue env a db = .ok (answer, one) := by
  simp only [enqueue, seq_eq_ok, passes.checked, passes.stored, ensure_eq_ok]
  cases admits with
  | @replayed w id workflow member owned given stored declared there same =>
    have resolve : resolveMembership env a db = .ok (.existing id) := by
      simp only [resolveMembership, given, seq_eq_ok, owned, stored, ensure_eq_ok, deps, List.filterMap_nil,
        List.insertionSort_nil, there]
      exact ⟨(), trivial, (), declared, (), same, trivial⟩
    exact ⟨db, (), trivial, (), passes.capped, _, resolve, rfl⟩
  | @held key id job alone room given holds run =>
    have attempt : tryInsert env db.nextUuid ((slotOf a db).row env q none) .ordinary
        { db with nextUuid := db.nextUuid + 1 } = .ok none := by
      have whole : (reservePlace .ordinary { db with nextUuid := db.nextUuid + 1 } >>=
          insertJob env db.nextUuid ((slotOf a db).row env q none)) = .ok none := seq_eq_ok.mpr ⟨_, rfl, run⟩
      simp only [tryInsert, whole]
    have converge : convergeOn a .ordinary { db with nextUuid := db.nextUuid + 1 } = .ok (some id) := by
      have held : (a.idempotencyKey.bind (keyHolder { db with nextUuid := db.nextUuid + 1 }.toCore a.queue)).map (·.1) =
          some id := by
        rw [given]
        exact congrArg (Option.map (·.1)) holds
      exact congrArg Except.ok held
    refine ⟨{ db with nextUuid := db.nextUuid + 1 }, (), trivial, (), passes.capped, .ordinary,
      Joins.resolve (.alone alone) deps passes.owned, ?_⟩
    refine seq_eq_ok.mpr ⟨(), ensure_eq_ok.mpr room, seq_eq_ok.mpr
      ⟨((id, false), { db with nextUuid := db.nextUuid + 1 }), ?_, rfl⟩⟩
    simp only [insertOrConverge, newUuid, seq_eq_ok]
    exact ⟨none, attempt, seq_eq_ok.mpr ⟨some id, converge, rfl⟩⟩
  | @created workflow reserved _ joins room taken run =>
    have attempt : tryInsert env db.nextUuid ((slotOf a db).row env q workflow) ((slotOf a db).membership env workflow)
        { db with nextUuid := db.nextUuid + 1 } = .ok (some db') := by
      have whole : (reservePlace ((slotOf a db).membership env workflow) { db with nextUuid := db.nextUuid + 1 } >>=
          insertJob env db.nextUuid ((slotOf a db).row env q workflow)) = .ok (some db') :=
        seq_eq_ok.mpr ⟨_, (reserveSlots_one env workflow _).symm.trans taken, run⟩
      simp only [tryInsert, whole]
    obtain ⟨finished, finish⟩ : ∃ finished,
        finishEnqueue env db.nextUuid ((slotOf a db).row env q workflow) [] q db' = .ok finished :=
      (finishEnqueue_created ..).imp' _ fun _ done => done
    refine ⟨finished, (), trivial, (), passes.capped, _, joins.resolve deps passes.owned, ?_⟩
    split
    · rename_i same
      cases workflow <;> cases same
    · simp only [seq_eq_ok, ensure_eq_ok]
      refine ⟨(), room, ((db.nextUuid, true), db'), ?_, ?_⟩
      · simp only [insertOrConverge, newUuid, seq_eq_ok]
        exact ⟨some db', attempt, rfl⟩
      · rw [membership_live]
        simp only [if_true, seq_eq_ok]
        exact ⟨_, finish, rfl⟩

end Single

section Bulk

/-- A bulk call with one spec, before its answer is built. -/
theorem parseSpecs_one (expresses : Expresses env spec a) (profiled : q.Profiled) {slots : List BulkSlot} :
    parseSpecs env a.queue q [spec] 1 none db = .ok (slots, db') ↔
      (slots = [slotOf a db] ∧ db' = { db with nextUuid := db.nextUuid + 1 }) ∧ checkEnqueue a = .ok () ∧
        a.backoffBase.getD q.defaultBackoffBase ≤ a.backoffCap.getD q.defaultBackoffCap ∧ a.workflowId ≠ some 0 := by
  simp only [parseSpecs, newUuid, seq_eq_ok, ensure_eq_ok, mapError_eq_ok, expresses.parse profiled]
  constructor
  · rintro ⟨-, -, _, ⟨rfl, checked, capped, named⟩, -, -, -, -, _, done, finish⟩
    cases done
    cases finish
    exact ⟨⟨rfl, rfl⟩, checked, capped, named⟩
  · rintro ⟨⟨rfl, rfl⟩, checked, capped, named⟩
    exact ⟨(), expresses.object, a, ⟨rfl, checked, capped, named⟩, (), rfl, (), rfl, _, rfl, rfl⟩

/-- The end of a bulk call with one answered slot. -/
def bulkEnd (env : Env) (queue : String) (q : Queue) (answer : Uuid × Bool) (db : Db) : Db :=
  let ids := if answer.2 then [answer.1] else []
  notifyCreated env queue q ids (enqueuedEvents env ids db)

/-- The two databases differ at most in the ids handed out and the notifications sent. -/
def Similar (one many : Db) : Prop := many = { one with nextUuid := many.nextUuid, notices := many.notices }

/-- What a bulk call does with its only slot, once it is parsed. -/
def bulkRest (env : Env) (queue : String) (q : Queue) (slot : BulkSlot) (db : Db) :
    Call (List (ℤ × Uuid × Bool) × Db) := do
  let (workflow, slots) ← resolveSlots env queue [slot] db
  let fresh := slots.countP (·.answer.isNone)
  ensure (fresh = 0 ∨ q.maxDepth.all fun n => queueDepth db queue < n)
    (.mk' .tq429 ("queue " ++ queue ++ " at max_depth " ++ shown q.maxDepth))
  let db ← reserveSlots workflow fresh db
  let (slots, db) ← insertSlots env q workflow slots db
  let (slots, db) ← convergeSlots env q workflow slots db
  let ids := createdJobs slots
  let db := notifyCreated env queue q ids (enqueuedEvents env ids db)
  .ok (slots.filterMap fun s => s.answer.map fun a => (s.index, a.1, a.2), db)

theorem enqueueMany_one (expresses : Expresses env spec a)
    (profiled : ∀ name q, db.queues.get? name = some q → q.Profiled) {result : List (ℤ × Uuid × Bool) × Db} :
    enqueueMany env a.queue (some (.arr [spec])) db = .ok result ↔ ∃ q, Accepts env a q db ∧ a.workflowId ≠ some 0 ∧
      bulkRest env a.queue q (slotOf a db) { db with nextUuid := db.nextUuid + 1 } = .ok result := by
  rw [enqueueMany, seq_eq_ok]
  constructor
  · rintro ⟨⟨⟩, owned, run⟩
    obtain ⟨-, -, run⟩ := seq_eq_ok.mp run
    split at run
    · cases run
    · rename_i q stored
      obtain ⟨⟨slots, after⟩, parse, run⟩ := seq_eq_ok.mp run
      obtain ⟨⟨rfl, rfl⟩, checked, capped, named⟩ := (parseSpecs_one expresses (profiled _ q stored)).mp parse
      exact ⟨q, ⟨checked, stored, capped, owned⟩, named, run⟩
  · rintro ⟨q, passes, named, rest⟩
    refine ⟨(), passes.owned, seq_eq_ok.mpr ⟨(), ensure_eq_ok.mpr ⟨rfl, le_rfl, (by decide : 1 ≤ 1000)⟩, ?_⟩⟩
    rw [passes.stored]
    exact seq_eq_ok.mpr ⟨_, (parseSpecs_one expresses (profiled _ q passes.stored)).mpr
      ⟨⟨rfl, rfl⟩, passes.checked, passes.capped, named⟩, rest⟩

/-- How the only slot of a bulk call is resolved: outside workflows, by the step that exists, or to a new step. -/
inductive Resolves (env : Env) (a : EnqueueArgs) (db : Db) : Option (Uuid × Workflow) → BulkSlot → Prop
  | alone (ordinary : a.workflowId = none) : Resolves env a db none (slotOf a db)
  | replayed {w id : Uuid} {workflow : Workflow} {member : Job} (given : a.workflowId = some w)
      (stored : db.workflows.get? w = some workflow) (declared : a.queue ∈ workflow.declaredQueues)
      (there : stepHolder db.toCore w a.stepKey = some (id, member))
      (same : sameStep workflow (intentHash env a []) member.toJobRow = true) :
      Resolves env a db (some (w, workflow)) { slotOf a db with answer := some (id, false) }
  | member {w : Uuid} {workflow : Workflow} (given : a.workflowId = some w)
      (stored : db.workflows.get? w = some workflow) (declared : a.queue ∈ workflow.declaredQueues)
      (free : stepHolder db.toCore w a.stepKey = none) (unsealed : workflow.sealedAt.isNone = true)
      (unheld : (a.idempotencyKey.bind (keyHolder db.toCore a.queue)).isNone = true) :
      Resolves env a db (some (w, workflow)) (slotOf a db)

/-- The only slot of a bulk call is replayed against its workflow. -/
theorem resolveSlots_of_replay {w : Uuid} {workflow : Workflow} {slot : BulkSlot} (given : a.workflowId = some w)
    (stored : db.workflows.get? w = some workflow) (declared : a.queue ∈ workflow.declaredQueues)
    (replay : replaySlot env w workflow { db with nextUuid := db.nextUuid + 1 } (slotOf a db) = .ok slot) :
    resolveSlots env a.queue [slotOf a db] { db with nextUuid := db.nextUuid + 1 } = .ok (some (w, workflow), [slot]) := by
  have head : ([slotOf a db].head?).bind (·.args.workflowId) = some w := given
  have keys : ([slotOf a db].filterMap (·.args.idempotencyKey)).Nodup := by
    cases key : a.idempotencyKey <;> simp [slotOf, key]
  have there : { db with nextUuid := db.nextUuid + 1 }.workflows.get? w = some workflow := stored
  have single : [slotOf a db].mapM (replaySlot env w workflow { db with nextUuid := db.nextUuid + 1 }) = .ok [slot] := by
    simp only [List.mapM_cons, List.mapM_nil, seq_eq_ok, return_eq_ok]
    exact ⟨slot, replay, [], rfl, rfl⟩
  rw [resolveSlots, head]
  refine seq_eq_ok.mpr ⟨(), ensure_eq_ok.mpr (List.nodup_singleton _), seq_eq_ok.mpr ⟨(), ensure_eq_ok.mpr keys, ?_⟩⟩
  rw [there]
  exact seq_eq_ok.mpr ⟨(), ensure_eq_ok.mpr declared, seq_eq_ok.mpr ⟨_, single, rfl⟩⟩

theorem resolveSlots_one {workflow : Option (Uuid × Workflow)} {slots : List BulkSlot} :
    resolveSlots env a.queue [slotOf a db] { db with nextUuid := db.nextUuid + 1 } = .ok (workflow, slots) ↔
      ∃ slot, slots = [slot] ∧ Resolves env a db workflow slot := by
  have head : ([slotOf a db].head?).bind (·.args.workflowId) = a.workflowId := rfl
  unfold resolveSlots
  rw [head]
  constructor
  · intro run
    split at run
    · rename_i ordinary
      cases run
      exact ⟨_, rfl, .alone ordinary⟩
    · rename_i w given
      simp only [seq_eq_ok] at run
      obtain ⟨-, -, -, -, run⟩ := run
      split at run
      · cases run
      · rename_i row stored
        simp only [seq_eq_ok, ensure_eq_ok, List.mapM_cons, List.mapM_nil, return_eq_ok] at run
        obtain ⟨-, declared, -, ⟨slot, replay, -, rfl, rfl⟩, finish⟩ := run
        cases finish
        refine ⟨slot, rfl, ?_⟩
        unfold replaySlot at replay
        split at replay
        · rename_i id member there
          simp only [seq_eq_ok, ensure_eq_ok] at replay
          obtain ⟨-, same, finish⟩ := replay
          cases finish
          exact .replayed given stored declared there same
        · rename_i free
          simp only [seq_eq_ok, ensure_eq_ok] at replay
          obtain ⟨-, unsealed, -, unheld, finish⟩ := replay
          cases finish
          exact .member given stored declared free unsealed unheld
  · rintro ⟨slot, rfl, resolves⟩
    rw [← head]
    cases resolves with
    | alone ordinary =>
      rw [head, ordinary]
    | @replayed w id row member given stored declared there same =>
      refine resolveSlots_of_replay given stored declared ?_
      have there' : stepHolder { db with nextUuid := db.nextUuid + 1 }.toCore w (slotOf a db).args.stepKey =
        some (id, member) := there
      rw [replaySlot, there']
      exact seq_eq_ok.mpr ⟨(), ensure_eq_ok.mpr same, rfl⟩
    | @member w row given stored declared free unsealed unheld =>
      refine resolveSlots_of_replay given stored declared ?_
      have free' : stepHolder { db with nextUuid := db.nextUuid + 1 }.toCore w (slotOf a db).args.stepKey = none := free
      rw [replaySlot, free']
      exact seq_eq_ok.mpr ⟨(), ensure_eq_ok.mpr unsealed, seq_eq_ok.mpr ⟨(), ensure_eq_ok.mpr unheld, rfl⟩⟩

theorem insertSlots_one {workflow : Option (Uuid × Workflow)} {slots : List BulkSlot} {mid last : Db} :
    insertSlots env q workflow [slotOf a db] mid = .ok (slots, last) ↔
      (insertJob env db.nextUuid ((slotOf a db).row env q workflow) mid = .ok (some last) ∧
        slots = [{ slotOf a db with answer := some (db.nextUuid, true) }]) ∨
      (insertJob env db.nextUuid ((slotOf a db).row env q workflow) mid = .ok none ∧ last = mid ∧
        slots = [slotOf a db]) := by
  have unanswered : (slotOf a db).answer.isSome ≠ true := Bool.false_ne_true
  rw [insertSlots, if_neg unanswered, seq_eq_ok]
  constructor
  · rintro ⟨inserted, insert, run⟩
    cases inserted with
    | some _ =>
      cases run
      exact .inl ⟨insert, rfl⟩
    | none =>
      cases run
      exact .inr ⟨insert, rfl, rfl⟩
  · rintro (⟨insert, rfl⟩ | ⟨insert, rfl, rfl⟩)
    · exact ⟨some last, insert, rfl⟩
    · exact ⟨none, insert, rfl⟩

/-- A bulk call with one spec goes through as the single call does. -/
theorem bulkRest_admits {result : List (ℤ × Uuid × Bool) × Db}
    (owned : checkAdmissionOwner env a.queue db = .ok ())
    (run : bulkRest env a.queue q (slotOf a db) { db with nextUuid := db.nextUuid + 1 } = .ok result) :
    ∃ answer last, Admits env a q db answer last := by
  obtain ⟨⟨workflow, slots⟩, resolve, run⟩ := seq_eq_ok.mp run
  obtain ⟨⟨⟩, room, run⟩ := seq_eq_ok.mp run
  obtain ⟨reserved, taken, run⟩ := seq_eq_ok.mp run
  obtain ⟨⟨inserted, last⟩, insert, run⟩ := seq_eq_ok.mp run
  obtain ⟨⟨converged, after⟩, converge, -⟩ := seq_eq_ok.mp run
  obtain ⟨slot, rfl, resolves⟩ := resolveSlots_one.mp resolve
  have room := ensure_eq_ok.mp room
  cases resolves with
  | replayed given stored declared there same => exact ⟨_, _, .replayed owned given stored declared there same⟩
  | alone ordinary =>
    have room := room.resolve_left Nat.one_ne_zero
    obtain ⟨done, -⟩ | ⟨none', -, -⟩ := insertSlots_one.mp insert
    · exact ⟨_, _, .created (.alone ordinary) room taken done⟩
    · obtain ⟨key, id, job, given, holds⟩ := insert_none taken none'
      cases taken
      exact ⟨_, _, .held ordinary room given holds none'⟩
  | member given stored declared free unsealed unheld =>
    have room := room.resolve_left Nat.one_ne_zero
    obtain ⟨done, -⟩ | ⟨none', -, -⟩ := insertSlots_one.mp insert
    · exact ⟨_, _, .created (.member given stored declared free unsealed) room taken done⟩
    · obtain ⟨key, id, job, keyed, holds⟩ := insert_none taken none'
      rw [keyed] at unheld
      exact nomatch unheld.symm.trans (congrArg Option.isNone holds)

/-- A bulk call whose only slot is answered. -/
theorem bulkRest_ends {workflow : Option (Uuid × Workflow)} {slot inserted : BulkSlot} {answer : Uuid × Bool}
    {reserved mid last : Db} (resolves : Resolves env a db workflow slot)
    (room : [slot].countP (·.answer.isNone) = 0 ∨ q.maxDepth.all fun n => queueDepth db a.queue < n)
    (taken : reserveSlots workflow ([slot].countP (·.answer.isNone)) { db with nextUuid := db.nextUuid + 1 } = .ok reserved)
    (insert : insertSlots env q workflow [slot] reserved = .ok ([inserted], mid))
    (converge : convergeSlots env q workflow [inserted] mid = .ok ([{ slotOf a db with answer := some answer }], last)) :
    bulkRest env a.queue q (slotOf a db) { db with nextUuid := db.nextUuid + 1 } =
      .ok ([(1, answer.1, answer.2)], bulkEnd env a.queue q answer last) := by
  have ids : createdJobs [{ slotOf a db with answer := some answer }] = if answer.2 then [answer.1] else [] := by
    obtain ⟨id, created⟩ := answer
    cases created <;> rfl
  refine seq_eq_ok.mpr ⟨_, resolveSlots_one.mpr ⟨slot, rfl, resolves⟩, seq_eq_ok.mpr ⟨(), ensure_eq_ok.mpr room,
    seq_eq_ok.mpr ⟨_, taken, seq_eq_ok.mpr ⟨_, insert, seq_eq_ok.mpr ⟨_, converge, ?_⟩⟩⟩⟩⟩
  rw [bulkEnd, ← ids]
  rfl

theorem convergeSlots_answered {workflow : Option (Uuid × Workflow)} {slot : BulkSlot}
    (answered : slot.answer.isSome = true) : convergeSlots env q workflow [slot] db = .ok ([slot], db) := by
  refine seq_eq_ok.mpr ⟨(slot, db), ?_, rfl⟩
  rw [answerSlot, if_pos answered]

/-- The single call that goes through is one that a bulk call makes, up to its event. -/
theorem Admits.bulk {answer : Uuid × Bool} {last : Db} (admits : Admits env a q db answer last) :
    ∃ many, bulkRest env a.queue q (slotOf a db) { db with nextUuid := db.nextUuid + 1 } =
      .ok ([(1, answer.1, answer.2)], bulkEnd env a.queue q answer many) ∧
        (many = last ∨ answer.2 = false ∧ many = { last with nextUuid := db.nextUuid + 1 }) := by
  cases admits with
  | replayed owned given stored declared there same =>
    exact ⟨_, bulkRest_ends (.replayed given stored declared there same) (.inl rfl) rfl rfl
      (convergeSlots_answered rfl), .inr ⟨rfl, rfl⟩⟩
  | @held key id job alone room given holds run =>
    refine ⟨_, bulkRest_ends (.alone alone) (.inr room) rfl (insertSlots_one.mpr (.inr ⟨run, rfl, rfl⟩)) ?_, .inl rfl⟩
    have holds' : (slotOf a db).args.idempotencyKey.bind
        (keyHolder { db with nextUuid := db.nextUuid + 1 }.toCore (slotOf a db).args.queue) = some (id, job) := by
      have keyed : (slotOf a db).args.idempotencyKey = some key := given
      rw [keyed]
      exact holds
    have converge : convergeSlot env q none (slotOf a db) 3 { db with nextUuid := db.nextUuid + 1 } =
        .ok ((id, false), { db with nextUuid := db.nextUuid + 1 }) := by
      rw [convergeSlot, Option.bind_none, holds']
      rfl
    exact seq_eq_ok.mpr ⟨_, seq_eq_ok.mpr ⟨_, converge, rfl⟩, rfl⟩
  | @created workflow reserved _ joins room taken run =>
    refine ⟨last, ?_, .inl rfl⟩
    have insert := insertSlots_one.mpr (.inl ⟨run, rfl⟩)
    cases joins with
    | alone ordinary => exact bulkRest_ends (.alone ordinary) (.inr room) taken insert (convergeSlots_answered rfl)
    | @member w workflow given stored declared free unsealed =>
      refine bulkRest_ends (.member given stored declared free unsealed ?_) (.inr room) taken insert
        (convergeSlots_answered rfl)
      cases keyed : a.idempotencyKey with
      | none => rfl
      | some key =>
        obtain ⟨counts, rfl⟩ := reserveSlots_frame taken
        obtain ⟨_, _, _, -, -, clear, fresh, -, -, rfl⟩ := insertJob_frame run
        have unheld := idemClash_eq_false (r := (slotOf a db).row env q (some (w, workflow))) keyed rfl fresh clear
        exact congrArg Option.isNone unheld

end Bulk

section Agreement

variable {site : Site} {allowed : System → Env → Command → Prop} {s : System} {id : Uuid} {last after : Db}

theorem System.Reachable.unspent (reachable : System.Reachable site allowed s) (fresh : s.xid < env.xid) :
    Unspent env s.db where
  fresh := by
    by_contra here
    exact absurd (reachable.minted.jobs _ here) (lt_irrefl _)
  named := reachable.named.absent
  unproven := fun _ scheduling owner r => reachable.unproven fresh scheduling owner r
  profiled := reachable.profiled

theorem bulkEnd_similar {job : Job} {one : Db} (here : last.jobs.get? id = some job)
    (finish : finishEnqueue env id job.toJobRow [] q last = .ok one) :
    Similar one (bulkEnd env queue q (id, true) last) := by
  obtain ⟨notices, done⟩ := finishEnqueue_created env id job.toJobRow q last
  cases finish.symm.trans done
  have event : enqueuedEvents env [id] last = insertEvent env id none "enqueued" "system" none
      (some (.build [("status", .str job.status.text), ("scheduled_at", .str (env.timeText job.scheduledAt))])) last := by
    simp only [enqueuedEvents, here]
  unfold Similar bulkEnd
  simp only [if_true, event, notifyCreated]
  split_ifs <;> rfl

theorem bulkEnd_existed (env : Env) (queue : String) (q : Queue) (id : Uuid) (db : Db) :
    bulkEnd env queue q (id, false) db = db := by
  simp [bulkEnd, notifyCreated, enqueuedEvents]

/-- The nil workflow admits nothing. -/
theorem Admits.named {answer : Uuid × Bool} (admits : Admits env a q db answer last) (unspent : Unspent env db) :
    a.workflowId ≠ some 0 := by
  intro nil
  cases admits with
  | replayed _ given stored =>
    cases given.symm.trans nil
    exact nomatch unspent.named.symm.trans stored
  | held alone => exact nomatch alone.symm.trans nil
  | created joins =>
    cases joins with
    | alone ordinary => exact nomatch ordinary.symm.trans nil
    | member given stored =>
      cases given.symm.trans nil
      exact nomatch unspent.named.symm.trans stored

theorem Admits.queues {answer : Uuid × Bool} (admits : Admits env a q db answer last) : last.queues = db.queues := by
  cases admits with
  | replayed | held => rfl
  | created joins room taken run =>
    obtain ⟨counts, rfl⟩ := reserveSlots_frame taken
    obtain ⟨_, _, _, -, -, -, -, -, -, rfl⟩ := insertJob_frame run
    rfl

theorem checkAdmissionOwner_congr (queues : after.queues = db.queues) :
    checkAdmissionOwner env queue after = checkAdmissionOwner env queue db := by
  rw [checkAdmissionOwner, checkAdmissionOwner, queues]

/-- A step that was admitted is a replay where it is stored. -/
theorem Admits.replays {w : Uuid} (admits : Admits env a q db (id, true) last) (passes : Accepts env a q db)
    (given : a.workflowId = some w) (jobs : after.jobs = last.jobs) (workflows : after.workflows = last.workflows)
    (queues : after.queues = last.queues) : Accepts env a q after ∧ Admits env a q after (id, false) after ∧
      ∃ job, after.jobs.get? id = some job ∧ job.workflowIntentHash = some (intentHash env a []) := by
  cases admits with
  | created joins room taken run =>
    obtain ⟨counts, rfl⟩ := reserveSlots_frame taken
    obtain ⟨job, _, _, row, -, -, -, -, -, rfl⟩ := insertJob_frame run
    have owned := (checkAdmissionOwner_congr queues).trans passes.owned
    have passes' : Accepts env a q after := ⟨passes.checked, queues ▸ passes.stored, passes.capped, owned⟩
    cases joins with
    | alone ordinary => exact nomatch given.symm.trans ordinary
    | @member w' workflow given' stored declared free unsealed =>
      cases given.symm.trans given'
      have step : job.workflowId = some w ∧ job.stepKey = a.stepKey := by
        rw [row]
        exact ⟨given, rfl⟩
      have hash : job.workflowIntentHash = some (intentHash env a []) := by rw [row]; rfl
      have policy : job.continuationPolicyHash = workflow.continuationPolicyHash := by rw [row]; rfl
      have here : after.jobs.get? db.nextUuid = some job := jobs ▸ Table.get?_put_self _ _ _
      have only : ∀ entry ∈ after.jobs.select (fun _ j => j.workflowId = some w ∧ j.stepKey = a.stepKey),
          entry = (db.nextUuid, job) := by
        intro ⟨other, j⟩ member
        obtain ⟨there, good⟩ := Table.mem_select.mp member
        by_cases own : other = db.nextUuid
        · subst own
          cases here.symm.trans there
          rfl
        · rw [jobs] at there
          exact absurd (of_decide_eq_true good)
            (stepHolder_eq_none free ((Table.get?_put_of_ne _ _ own).symm.trans there))
      have holder : stepHolder after.toCore w a.stepKey = some (db.nextUuid, job) := by
        have member : (db.nextUuid, job) ∈ after.jobs.select fun _ j => j.workflowId = some w ∧ j.stepKey = a.stepKey :=
          Table.mem_select.mpr ⟨here, decide_eq_true step⟩
        unfold stepHolder
        obtain ⟨head, tail, shape⟩ := List.exists_cons_of_ne_nil (List.ne_nil_of_mem member)
        rw [shape, List.head?_cons, only head (shape ▸ List.mem_cons_self)]
      have same : sameStep workflow (intentHash env a []) job.toJobRow = true := by
        simp [sameStep, hash, policy]
      exact ⟨passes', .replayed owned given (workflows ▸ stored) declared holder same, job, here, hash⟩

/-- A single call and a bulk call with the same spec go through together, and leave the same tables but for the ids
handed out and the notifications: the same job, with the same row and the same event, or the same existing job. The
step that one of them admits is a replay for both. -/
theorem single_and_bulk_agree (reachable : System.Reachable site allowed s) (fresh : s.xid < env.xid)
    (expresses : Expresses env spec a) :
    match enqueue env a s.db, enqueueMany env a.queue (some (.arr [spec])) s.db with
    | .ok ((id, created), one), .ok (answers, many) => answers = [(1, id, created)] ∧ Similar one many ∧
        (created = true → ∀ w, a.workflowId = some w → ∀ after ∈ [one, many],
          (∃ job, after.jobs.get? id = some job ∧ job.workflowIntentHash = some (intentHash env a [])) ∧
          (∃ db, enqueue env a after = .ok ((id, false), db)) ∧
          ∃ db, enqueueMany env a.queue (some (.arr [spec])) after = .ok ([(1, id, false)], db))
    | .error _, .error _ => True
    | _, _ => False := by
  have unspent := reachable.unspent fresh
  cases single : enqueue env a s.db with
  | ok result =>
    obtain ⟨⟨id, created⟩, one⟩ := result
    obtain ⟨q, last, passes, admits, existed, finishes⟩ := Admits.of_single unspent expresses.dependsOn single
    obtain ⟨many, rest, ends⟩ := admits.bulk
    have bulk := (enqueueMany_one expresses unspent.profiled).mpr ⟨q, passes, admits.named unspent, rest⟩
    rw [bulk]
    refine ⟨rfl, ?_, fun fresh w given => ?_⟩
    · cases created with
      | false =>
        rw [existed rfl, bulkEnd_existed]
        obtain rfl | ⟨-, rfl⟩ := ends <;> rfl
      | true =>
        obtain ⟨job, here, finish⟩ := finishes rfl
        obtain rfl := ends.resolve_right fun ⟨left, _⟩ => nomatch left
        exact bulkEnd_similar here finish
    · subst fresh
      obtain ⟨job, here, finish⟩ := finishes rfl
      obtain rfl := ends.resolve_right fun ⟨left, _⟩ => nomatch left
      have similar : Similar one (bulkEnd env a.queue q (id, true) many) := bulkEnd_similar here finish
      obtain ⟨notices, done⟩ := finishEnqueue_created env id job.toJobRow q many
      cases finish.symm.trans done
      have tables (after : Db) (jobs : after.jobs = many.jobs) (workflows : after.workflows = many.workflows)
          (queues : after.queues = many.queues) :
          (∃ job, after.jobs.get? id = some job ∧ job.workflowIntentHash = some (intentHash env a [])) ∧
          (∃ db, enqueue env a after = .ok ((id, false), db)) ∧
          ∃ db, enqueueMany env a.queue (some (.arr [spec])) after = .ok ([(1, id, false)], db) := by
        obtain ⟨passes', replay, hash⟩ := admits.replays passes given jobs workflows queues
        obtain ⟨single', goes⟩ := replay.single passes' expresses.dependsOn
        obtain ⟨bulk', rest', -⟩ := replay.bulk
        have profiled : ∀ name q, after.queues.get? name = some q → q.Profiled := by
          rw [queues, admits.queues]
          exact unspent.profiled
        exact ⟨hash, ⟨single', goes⟩, _, (enqueueMany_one expresses profiled).mpr ⟨q, passes', admits.named unspent, rest'⟩⟩
      intro after member
      obtain rfl | rfl : after = _ ∨ after = _ := by simpa using member
      · exact tables _ rfl rfl rfl
      · rw [similar]
        exact tables _ rfl rfl rfl
  | error e =>
    cases bulk : enqueueMany env a.queue (some (.arr [spec])) s.db with
    | error => trivial
    | ok result =>
      obtain ⟨q, passes, -, rest⟩ := (enqueueMany_one expresses unspent.profiled).mp bulk
      obtain ⟨answer, last, admits⟩ := bulkRest_admits passes.owned rest
      obtain ⟨one, goes⟩ := admits.single passes expresses.dependsOn
      exact nomatch single.symm.trans goes

/-- A spec with a job type and a priority, and the arguments that say the same. -/
def rankedSpec : Jsonb := .obj [("job_type", .str "t"), ("priority", .ofInt 5)]

def rankedArgs : EnqueueArgs := { EnqueueArgs.simple "q" with priority := some 5 }

theorem Jsonb.Holds.absent {α : Type} {cast : String → Option α} {key : String} (absent : spec.hasKey key = false)
    (missing : spec.fieldText? key = none) : spec.Holds cast key none where
  read := by rw [castText, missing]
  given := fun there => nomatch absent.symm.trans there

theorem ranked_expresses (now : Time) (xid : ℕ) : Expresses (.alone .digits now xid) rankedSpec rankedArgs where
  object := rfl
  keys := by decide
  jobType := ⟨rfl, fun _ => rfl⟩
  payload := rfl
  headers := rfl
  priority := ⟨(by decide : castText readDigits rankedSpec "priority" = .ok (some 5)), fun _ => rfl⟩
  leaseSeconds := .absent rfl rfl
  maxAttempts := .absent rfl rfl
  backoffMode := .absent rfl rfl
  backoffBase := .absent rfl rfl
  backoffCap := .absent rfl rfl
  idempotencyKey := .absent rfl rfl
  concurrencyKey := .absent rfl rfl
  affinityKey := .absent rfl rfl
  ttlSeconds := .absent rfl rfl
  flowKey := .absent rfl rfl
  workflowId := .absent rfl rfl
  stepKey := .absent rfl rfl
  scheduledAt := .absent rfl rfl
  parentJobId := .absent rfl rfl
  dependsOn := rfl
  capRange := rfl

theorem single_and_bulk_agree_ranked : ∃ (s : System) (env : Env) (id : Uuid) (one many : Db),
    enqueue env rankedArgs s.db = .ok ((id, true), one) ∧
      enqueueMany env rankedArgs.queue (some (.arr [rankedSpec])) s.db = .ok ([(1, id, true)], many) ∧
        Similar one many := by
  have played : System.plays .digits [(0, .ensureQueue (some "q") none)] (.installed .digits 0) (fun s =>
      s.xid == 1 && (enqueue (.alone .digits 1 2) rankedArgs s.db).toOption.any fun r => r.1.2) = true := by
    decide +kernel
  obtain ⟨s, run, good⟩ := System.plays_run anyCall played fun _ _ _ => trivial
  simp only [Bool.and_eq_true, beq_iff_eq] at good
  obtain ⟨last, admitted⟩ := good
  have reachable : System.Reachable .digits anyCall s := ⟨0, run⟩
  have fresh : s.xid < (Env.alone .digits 1 2).xid := last ▸ Nat.one_lt_two
  have agree := single_and_bulk_agree reachable fresh (ranked_expresses 1 2)
  split at agree
  · rename_i id created one answers many single bulk
    rw [single] at admitted
    have created : created = true := admitted
    subst created
    obtain ⟨rfl, similar, -⟩ := agree
    exact ⟨s, _, id, one, many, single, bulk, similar⟩
  · rename_i e _ single _
    rw [single] at admitted
    cases admitted
  · exact agree.elim

end Agreement

end Taskq
