import Taskq.Contract.Occurrences
import Taskq.Invariants.Profiles

/-! Accepted schedules and the enqueue calls of their occurrences: two validators that do not agree on keys,
on the backoff and on the size of the headers. -/
namespace Taskq
open Relational

variable {env : Env} {id occurrence : Uuid} {s : ScheduleRow} {claim : ScheduleClaim} {due : Time} {late : ℤ}
  {q : Queue}

section Key

/-- A value of the type `uuid`. -/
def Uuid.Fits (u : Uuid) : Prop := u < 16 ^ 32

/-- A value of the type `timestamptz`, as microseconds of 64 bits. -/
def Time.Fits (t : Time) : Prop := -2 ^ 63 ≤ t ∧ t < 2 ^ 63

theorem Uuid.text_length {u : Uuid} (fits : u.Fits) : (Uuid.text u).length = 36 := by
  have digits : (Nat.digits 16 u).length ≤ 32 := (Nat.digits_length_le_iff (by decide) u).mpr fits
  simp only [Uuid.text, String.length_ofList, List.length_reverse, Uuid.reversedChars, List.length_append,
    List.length_cons, List.length_take, List.length_drop, List.length_map, List.length_replicate]
  omega

/-- A number below `10 ^ 19` has at most 19 digits. -/
theorem repr_length_le {n : ℕ} (small : n < 10 ^ 19) : (Nat.repr n).length ≤ 19 := by
  rw [← String.length_toList, Nat.toList_repr]
  exact (Nat.length_toDigits_le_iff (by decide) (by decide)).mpr small

theorem int_text_length {n : ℤ} (low : -2 ^ 63 ≤ n) (high : n < 2 ^ 63) : (toString n).length ≤ 20 := by
  have size : n.toNat < 10 ^ 19 ∧ (-n).toNat < 10 ^ 19 := by
    norm_num at low high ⊢
    omega
  have digits := repr_length_le size.1
  have negated := repr_length_le size.2
  change (Int.repr n).length ≤ 20
  rw [Int.repr_eq_if]
  split_ifs
  · omega
  · rw [String.length_append]
    have sign : "-".length = 1 := rfl
    omega

/-- The key of an occurrence is one that `enqueue` accepts. -/
theorem occurrenceKey_ok (uuid : id.Fits) (stamp : due.Fits) :
    textOk 255 (some (occurrenceKey id due)) = true ∧ engineReserved (some (occurrenceKey id due)) = false ∧
      (occurrenceKey id due).length ≤ 255 := by
  have short : (occurrenceKey id due).length ≤ 66 := by
    have digits := int_text_length stamp.1 stamp.2
    simp only [occurrenceKey, String.length_append, Uuid.text_length uuid]
    have first : "schedule:".length = 9 := rfl
    have second : ":".length = 1 := rfl
    omega
  have shape : (occurrenceKey id due).toList = 's' :: ("chedule:" ++ Uuid.text id ++ ":" ++ toString due).toList := by
    simp [occurrenceKey]
  refine ⟨?_, ?_, by omega⟩
  · have nonempty : occurrenceKey id due ≠ "" := fun empty => by simp [empty] at shape
    simp only [textOk, Option.all_some, Bool.and_eq_true, decide_eq_true_eq]
    exact ⟨nonempty, by omega⟩
  · simp [engineReserved, hasPrefix, shape, List.isPrefixOf]

end Key

section Fields

/-- A bounded field that fits a `smallint` reads the same under both casts. -/
theorem IntField.smallField {target : Jsonb} {key : String} {low high : ℤ} {n : Option ℤ}
    (cast : castInt env target key = .ok n) (bounds : n.all (fun n => low ≤ n ∧ n ≤ high) = true)
    (small : -32768 ≤ low ∧ high ≤ 32767) : Taskq.smallField env target key = .ok n := by
  unfold castInt at cast
  unfold Taskq.smallField
  obtain ⟨value, read, rest⟩ := seq_eq_ok.mp cast
  rw [read]
  cases value with
  | none => exact rest
  | some m =>
    obtain ⟨k, range, finish⟩ := seq_eq_ok.mp rest
    cases finish
    obtain ⟨-, rfl⟩ := int4_eq_ok.mp range
    simp only [Option.all_some, decide_eq_true_eq] at bounds
    have fits : int2 m = .ok m := int2_eq_ok.mpr ⟨⟨by omega, by omega⟩, rfl⟩
    simp only [bind, Except.bind, fits]

/-- The values that a target gives to an occurrence's call. -/
theorem occurrenceArgs_made (target : Targeted env s.target) : ∃ priority attempts lease base cap,
    (priority.all (fun n => 0 ≤ n ∧ n ≤ 1000) = true ∧ attempts.all (fun n => 1 ≤ n ∧ n ≤ 100) = true ∧
      lease.all (fun n => 15 ≤ n ∧ n ≤ 86400) = true) ∧
    (castInt env s.target "backoff_base" = .ok base ∧ base.all (fun n => 0 ≤ n ∧ n ≤ 86400) = true) ∧
    (castInt env s.target "backoff_cap" = .ok cap ∧ cap.all (fun n => 0 ≤ n ∧ n ≤ 604800) = true) ∧
    occurrenceArgs env id s claim occurrence due late =
      .ok ⟨(s.target.fieldText? "queue").getD "", s.target.fieldText? "job_type", s.target.field? "payload",
        priority, some due, some (occurrenceKey id due), s.target.fieldText? "concurrency_key",
        s.target.fieldText? "affinity_key", attempts, lease, s.target.fieldText? "backoff_mode", base, cap, [], none,
        none, none, (s.target.field? "headers").map fun headers => headers.merge (.build [("taskq_schedule",
          scheduleHeader env id s claim occurrence due late)]), none, none⟩ := by
  obtain ⟨priority, hp, bp⟩ := target.priority
  obtain ⟨attempts, ha, ba⟩ := target.maxAttempts
  obtain ⟨lease, hl, bl⟩ := target.leaseSeconds
  obtain ⟨base, hb, bb⟩ := target.backoffBase
  obtain ⟨cap, hc, bc⟩ := target.backoffCap
  have sp := IntField.smallField hp bp (by decide)
  have sa := IntField.smallField ha ba (by decide)
  refine ⟨priority, attempts, lease, base, cap, ⟨bp, ba, bl⟩, ⟨hb, bb⟩, ⟨hc, bc⟩, ?_⟩
  simp only [occurrenceArgs, sp, sa, hl, hb, hc, bind, Except.bind]

end Fields

section Passing

/-- The enqueue call of the occurrence passes every check on its arguments, and its row every constraint
of the table. -/
def Passes (env : Env) (id : Uuid) (s : ScheduleRow) (claim : ScheduleClaim) (occurrence : Uuid) (due : Time)
    (late : ℤ) (q : Queue) : Prop :=
  ∃ args job, occurrenceArgs env id s claim occurrence due late = .ok args ∧ checkEnqueue args = .ok () ∧
    args.backoffBase.getD q.defaultBackoffBase ≤ args.backoffCap.getD q.defaultBackoffCap ∧
    storeJob (args.row env q .ordinary) = .ok job

/-- What `enqueue` asks of a target and `put_schedule` does not: keys of at most 120 characters, a positive
backoff whose cap is not below its base once the defaults of the queue are in, and room in the headers for
the header of the schedule. -/
structure Enqueueable (env : Env) (id : Uuid) (s : ScheduleRow) (claim : ScheduleClaim) (occurrence : Uuid)
    (due : Time) (late : ℤ) (q : Queue) : Prop where
  jobType : (s.target.fieldText? "job_type").all (·.length ≤ 120) = true
  concurrencyKey : (s.target.fieldText? "concurrency_key").all (·.length ≤ 120) = true
  affinityKey : (s.target.fieldText? "affinity_key").all (·.length ≤ 120) = true
  backoff : ∀ base cap, castInt env s.target "backoff_base" = .ok base → castInt env s.target "backoff_cap" = .ok cap →
    base.all (1 ≤ ·) = true ∧ cap.all (1 ≤ ·) = true ∧ base.getD q.defaultBackoffBase ≤ cap.getD q.defaultBackoffCap
  headers : ((s.target.field? "headers").all fun headers => octetLength (headers.merge (.build [("taskq_schedule",
    scheduleHeader env id s claim occurrence due late)])).text ≤ 8192) = true

/-- A text within a number of bytes is not empty. -/
theorem textOk_of_bytes {value : Option String} {n : ℕ} (bytes : value.all keyBytesOk = true) :
    textOk n value = value.all (·.length ≤ n) := by
  cases value with
  | none => rfl
  | some t =>
    have nonempty : t ≠ "" := by
      rintro rfl
      exact absurd bytes (by decide)
    simp [textOk, nonempty]

/-- The checks of `enqueue` on its arguments, one by one. -/
theorem checkEnqueue_eq_ok {a : EnqueueArgs} : checkEnqueue a = .ok () ↔
    a.ttlSeconds.all (fun n => 1 ≤ n ∧ n ≤ 31536000) = true ∧ textOk 120 a.flowKey = true ∧
    jobTypeOk a.jobType = true ∧ a.priority.all (fun n => 0 ≤ n ∧ n ≤ 1000) = true ∧
    a.leaseSeconds.all (fun n => 15 ≤ n ∧ n ≤ 86400) = true ∧ a.maxAttempts.all (fun n => 1 ≤ n ∧ n ≤ 100) = true ∧
    a.backoffMode.all (fun m => (BackoffMode.ofText? m).isSome) = true ∧
    a.backoffBase.all (fun n => 1 ≤ n ∧ n ≤ 86400) = true ∧ a.backoffCap.all (fun n => 1 ≤ n) = true ∧
    textOk 255 a.idempotencyKey = true ∧ ¬engineReserved a.idempotencyKey = true ∧
    textOk 120 a.concurrencyKey = true ∧ textOk 120 a.affinityKey = true ∧
    a.payload.any (fun p => p.kind = .object ∧ octetLength p.text ≤ 65536) = true ∧
    a.headers.all (fun h => h.kind = .object ∧ octetLength h.text ≤ 8192) = true ∧
    a.workflowId.isNone = a.stepKey.isNone ∧ (a.workflowId.isSome = true ∨ a.dependsOn = []) ∧
    a.stepKey.all isStepKey = true ∧
    a.dependsOn.length ≤ 100 ∧ a.dependsOn.all (·.isSome) = true ∧ a.dependsOn.Nodup := by
  simp only [checkEnqueue, seq_eq_ok, ensure_eq_ok, exists_const]

theorem textOk_length {n : ℕ} {value : Option String} (ok : textOk n value = true) :
    value.all (·.length ≤ n) = true := by
  cases value with
  | none => rfl
  | some t =>
    simp only [textOk, Option.all_some, Bool.and_eq_true] at ok
    exact ok.2

theorem getD_bounds {value : Option ℤ} {default low high : ℤ}
    (bounds : value.all (fun n => low ≤ n ∧ n ≤ high) = true) (within : low ≤ default ∧ default ≤ high) :
    low ≤ value.getD default ∧ value.getD default ≤ high := by
  cases value with
  | none => exact within
  | some n => simpa using bounds

/-- The row of arguments that pass the checks satisfies every constraint of the table, whatever the queue
adds. -/
theorem row_stores {a : EnqueueArgs} (checked : checkEnqueue a = .ok ()) (alone : a.workflowId = none)
    (profiled : q.Profiled) : ∃ job, storeJob (a.row env q .ordinary) = .ok job := by
  obtain ⟨-, flowKey, type, priority, lease, attempts, -, -, -, key, -, concurrency, affinity, -, -, together, -⟩ :=
    checkEnqueue_eq_ok.mp checked
  have priority := getD_bounds priority profiled.priority
  have lease := getD_bounds lease profiled.lease
  have attempts := getD_bounds attempts profiled.attempts
  have stepless : a.stepKey = none := by simpa [alone] using together
  have typeLength : (a.jobType.getD "").length ≤ 120 := by
    obtain ⟨t, given, ok⟩ := (Option.any_eq_true _ _).mp type
    simp only [Bool.and_eq_true, decide_eq_true_eq] at ok
    simpa [given] using ok.2
  have flowOk : a.flowKey.all (fun k => 1 ≤ k.length && k.length ≤ 120) = true := by
    cases given : a.flowKey with
    | none => rfl
    | some k =>
      simp only [given, textOk, Option.all_some, Bool.and_eq_true, decide_eq_true_eq] at flowKey
      have nonempty : 0 < k.length := by
        rw [Nat.pos_iff_ne_zero, ne_eq, String.length_eq_zero_iff]
        exact flowKey.1
      simp only [Option.all_some, Bool.and_eq_true, decide_eq_true_eq]
      exact ⟨nonempty, flowKey.2⟩
  have columns : (a.row env q .ordinary).columnsOk = true := by
    simp only [JobRow.columnsOk, EnqueueArgs.row, Membership.live, Bool.and_eq_true, decide_eq_true_eq]
    exact ⟨⟨⟨⟨⟨⟨⟨⟨⟨⟨⟨⟨typeLength, priority.1⟩, priority.2⟩, textOk_length key⟩, textOk_length concurrency⟩,
      textOk_length affinity⟩, flowOk⟩, by simp⟩, lease.1⟩, lease.2⟩, attempts.1⟩, attempts.2⟩, rfl⟩
  have checks : (a.row env q .ordinary).checksOk = true := by
    simp only [JobRow.checksOk, columns, Bool.true_and]
    simp [JobRow.memberShape, JobRow.runningShape, JobRow.terminalShape, EnqueueArgs.row, Membership.live, alone,
      stepless, JobRow.defaults, JobStatus.terminal]
  refine ⟨⟨_, checks⟩, storeJob_eq_ok.mpr ⟨?_, rfl⟩⟩
  constructor <;> simp only [EnqueueArgs.row, JobRow.defaults, Membership.live, List.length_nil, Nat.cast_zero] <;>
    omega

theorem passes_iff (target : Targeted env s.target) (profiled : q.Profiled) (uuid : id.Fits) (stamp : due.Fits) :
    Passes env id s claim occurrence due late q ↔ Enqueueable env id s claim occurrence due late q := by
  obtain ⟨priority, attempts, lease, base, cap, ⟨bp, ba, bl⟩, ⟨hb, bb⟩, ⟨hc, bc⟩, made⟩ :=
    @occurrenceArgs_made env id occurrence s claim due late target
  obtain ⟨keyText, keyFree, keyShort⟩ := occurrenceKey_ok uuid stamp
  obtain ⟨type, typed, typeBytes⟩ := target.jobType
  obtain ⟨payload, payloaded, object⟩ := target.payload
  obtain ⟨headers, headed, -⟩ := target.headers
  have typeOk : jobTypeOk (s.target.fieldText? "job_type") = (s.target.fieldText? "job_type").all (·.length ≤ 120) := by
    have nonempty : type ≠ "" := by
      rintro rfl
      exact absurd typeBytes (by decide)
    simp [typed, jobTypeOk, nonempty]
  have positive {value : Option ℤ} {high : ℤ} (bounds : value.all (fun n => 0 ≤ n ∧ n ≤ high) = true) :
      value.all (fun n => 1 ≤ n ∧ n ≤ high) = value.all (1 ≤ ·) := by
    cases value with
    | none => rfl
    | some n => simp_all
  constructor
  · rintro ⟨args, job, built, checked, order, -⟩
    cases made.symm.trans built
    obtain ⟨-, -, type, -, -, -, -, low, least, -, -, concurrency, affinity, -, header, -⟩ :=
      checkEnqueue_eq_ok.mp checked
    refine ⟨typeOk ▸ type, textOk_length concurrency, textOk_length affinity, fun base' cap' hb' hc' => ?_, ?_⟩
    · cases hb.symm.trans hb'
      cases hc.symm.trans hc'
      exact ⟨positive bb ▸ low, least, order⟩
    · simp only [headed, Option.map_some, Option.all_some, decide_eq_true_eq] at header ⊢
      exact header.2
  · rintro ⟨type, concurrency, affinity, backoff, header⟩
    obtain ⟨low, least, order⟩ := backoff base cap hb hc
    suffices accepted : ∀ a, occurrenceArgs env id s claim occurrence due late = .ok a → checkEnqueue a = .ok () by
      obtain ⟨job, stores⟩ := @row_stores env q _ (accepted _ made) rfl profiled
      exact ⟨_, job, made, accepted _ made, order, stores⟩
    · rintro a built
      cases made.symm.trans built
      have within : ((s.target.field? "headers").map fun headers => headers.merge (.build [("taskq_schedule",
          scheduleHeader env id s claim occurrence due late)])).all
          (fun h => h.kind = .object ∧ octetLength h.text ≤ 8192) = true := by
        simp only [headed, Option.map_some, Option.all_some, decide_eq_true_eq] at header ⊢
        exact ⟨rfl, header⟩
      rw [checkEnqueue_eq_ok]
      exact ⟨rfl, rfl, typeOk ▸ type, bp, bl, ba, target.backoffMode, (positive bb).trans low, least, keyText,
        by simp [keyFree], (textOk_of_bytes target.concurrencyKey).trans concurrency,
        (textOk_of_bytes target.affinityKey).trans affinity, by simp [payloaded, object], within, rfl,
        .inr rfl, rfl, by simp, rfl, List.nodup_nil⟩

end Passing

section Claim

variable {site : Site} {allowed : System → Env → Command → Prop} {sys : System} {s : Schedule} {name : String}

theorem Targeted.congr {env env' : Env} {target : Jsonb} (targeted : Targeted env target)
    (server : env'.toSite = env.toSite) : Targeted env' target := by
  have field {key : String} {low high : ℤ} (given : IntField env target key low high) :
      IntField env' target key low high := by
    unfold IntField castInt at given ⊢
    rwa [server]
  exact ⟨targeted.kind, targeted.queue, targeted.jobType, targeted.payload, targeted.headers, field targeted.priority,
    field targeted.maxAttempts, field targeted.leaseSeconds, field targeted.backoffBase, field targeted.backoffCap,
    targeted.backoffMode, targeted.concurrencyKey, targeted.affinityKey⟩

/-- Every job schedule that calls have put can make the call of an occurrence exactly if its target also meets
what only `enqueue` asks, whatever the profile of the queue is by then. -/
theorem accepted_schedules_enqueue (reachable : System.Reachable site allowed sys) (server : env.toSite = site)
    (stored : sys.db.scheduling.schedules.get? id = some s) (job : s.target.fieldText? "kind" = some "job")
    (queue : sys.db.queues.get? name = some q) (uuid : id.Fits) (stamp : due.Fits) :
    Passes env id s.toScheduleRow claim occurrence due late q ↔
      Enqueueable env id s.toScheduleRow claim occurrence due late q := by
  obtain maintenance | ⟨checked, given, past, same, normal⟩ := reachable.timetabled.targets id s stored
  · exact absurd (job.symm.trans maintenance) (by simp)
  · exact passes_iff ((normalizeTarget_targeted normal).congr (server.trans same.symm))
      (reachable.profiled name q queue) uuid stamp

/-- The schedule of every minute can make the call of its first occurrence. -/
theorem accepted_schedules_enqueue_first : ∃ (sys : System) (s : Schedule) (claim : ScheduleClaim) (q : Queue),
    sys.db.scheduling.schedules.get? 2 = some s ∧ s.claim = some claim ∧
    s.target.fieldText? "queue" = some "q" ∧ sys.db.queues.get? "q" = some q ∧
    Passes (.alone .digits 60000000 9) 2 s.toScheduleRow claim 7 60000000 0 q := by
  have played : System.plays .digits firstMinute (.installed .digits 0) (fun sys =>
      (sys.db.scheduling.schedules.get? 2).any fun s => (sys.db.queues.get? "q").any fun q => s.claim.any fun c =>
        s.target.fieldText? "kind" = some "job" && s.target.fieldText? "queue" = some "q" &&
        s.target.fieldText? "job_type" = some "t" && s.target.fieldText? "concurrency_key" = none &&
        s.target.fieldText? "affinity_key" = none &&
        (castInt (.alone .digits 60000000 9) s.target "backoff_base").toOption = some none &&
        (castInt (.alone .digits 60000000 9) s.target "backoff_cap").toOption = some none &&
        decide (q.defaultBackoffBase ≤ q.defaultBackoffCap) &&
        ((s.target.field? "headers").all fun headers => octetLength (headers.merge (.build [("taskq_schedule",
          scheduleHeader (.alone .digits 60000000 9) 2 s.toScheduleRow c 7 60000000 0)])).text ≤ 8192)) = true := by
    decide +kernel
  obtain ⟨sys, run, there⟩ := System.plays_run anyCall played fun _ _ _ => trivial
  obtain ⟨s, stored, there⟩ := (Option.any_eq_true _ _).mp there
  obtain ⟨q, queue, there⟩ := (Option.any_eq_true _ _).mp there
  obtain ⟨c, claimed, there⟩ := (Option.any_eq_true _ _).mp there
  simp only [Bool.and_eq_true, decide_eq_true_eq] at there
  obtain ⟨⟨⟨⟨⟨⟨⟨⟨kind, target⟩, type⟩, concurrency⟩, affinity⟩, base⟩, cap⟩, order⟩, headers⟩ := there
  refine ⟨sys, s, c, q, stored, claimed, target, queue, (accepted_schedules_enqueue ⟨0, run⟩ rfl stored kind queue
    (by unfold Uuid.Fits; decide) (by unfold Time.Fits; decide)).mpr ⟨?_, ?_, ?_, fun base' cap' hb hc => ?_, headers⟩⟩
  · rw [type]
    decide
  · rw [concurrency]
    rfl
  · rw [affinity]
    rfl
  · cases (toOption_eq_some.mp base).symm.trans hb
    cases (toOption_eq_some.mp cap).symm.trans hc
    exact ⟨rfl, rfl, order⟩

/-- A schedule that retries at once: its definition is accepted. -/
def atOnce : Jsonb :=
  .build [("target", .build [("kind", .str "job"), ("queue", .str "q"), ("job_type", .str "t"),
      ("backoff_base", .ofInt 0)]),
    ("recurrence", .build [("kind", .str "interval"), ("interval_seconds", .ofInt 60)]),
    ("catchup_policy", .str "fire_all"), ("max_catchup", .ofInt 1)]

/-- It is compiled, and claimed again when its first occurrence is due. -/
def atOnceMinute : List (Time × Command) :=
  [(0, .ensureQueue (some "q") none), (0, .putSchedule (some "s") atOnce (some "a") none),
    (0, .claimSchedules (some "w") (some 2) (some 300)), (0, .fireSchedule ⟨2, 4, 1, [], 60000000⟩),
    (60000000, .claimSchedules (some "w") (some 1) (some 300))]

/-- Its first occurrence cannot be enqueued, so the fire fails. -/
theorem accepted_schedules_enqueue_at_once : ∃ (sys : System) (s : Schedule) (claim : ScheduleClaim) (q : Queue),
    System.Reachable .digits anyCall sys ∧ sys.db.scheduling.schedules.get? 2 = some s ∧ s.claim = some claim ∧
    s.target.fieldText? "kind" = some "job" ∧ s.target.fieldText? "queue" = some "q" ∧
    sys.db.queues.get? "q" = some q ∧ q.maxDepth = none ∧ q.admissionOwnerOid = none ∧
    ¬Passes (.alone .digits 60000000 9) 2 s.toScheduleRow claim 7 60000000 0 q ∧
    fireSchedule (.alone .digits 60000000 9) firstFire sys.db = .error (tq422 "backoff_base must be 1..86400") := by
  have played : System.plays .digits atOnceMinute (.installed .digits 0) (fun sys =>
      ((sys.db.scheduling.schedules.get? 2).any fun s => (sys.db.queues.get? "q").any fun q => s.claim.any fun c =>
        s.target.fieldText? "kind" = some "job" && s.target.fieldText? "queue" = some "q" &&
        q.maxDepth = none && q.admissionOwnerOid = none &&
        (occurrenceArgs (.alone .digits 60000000 9) 2 s.toScheduleRow c 7 60000000 0).toOption.all fun a =>
          (checkEnqueue a).toOption.isNone) &&
      match fireSchedule (.alone .digits 60000000 9) firstFire sys.db with
      | .error e => e = tq422 "backoff_base must be 1..86400"
      | .ok _ => false) = true := by
    decide +kernel
  obtain ⟨sys, run, there⟩ := System.plays_run anyCall played fun _ _ _ => trivial
  obtain ⟨there, fails⟩ := Bool.and_eq_true _ _ |>.mp there
  obtain ⟨s, stored, there⟩ := (Option.any_eq_true _ _).mp there
  obtain ⟨q, queue, there⟩ := (Option.any_eq_true _ _).mp there
  obtain ⟨c, claimed, there⟩ := (Option.any_eq_true _ _).mp there
  simp only [Bool.and_eq_true, decide_eq_true_eq] at there
  obtain ⟨⟨⟨⟨kind, target⟩, depth⟩, owner⟩, refused⟩ := there
  refine ⟨sys, s, c, q, ⟨0, run⟩, stored, claimed, kind, target, queue, depth, owner, ?_, ?_⟩
  · rintro ⟨args, job, built, checked, -⟩
    rw [built] at refused
    simp [Except.toOption, checked] at refused
  · split at fails
    · rename_i e refusal
      rw [refusal, of_decide_eq_true fails]
    · cases fails

end Claim

end Taskq
