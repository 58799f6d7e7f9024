import Taskq.Contract.BulkSpecs
import Taskq.Invariants.Steps
import Taskq.Lifecycle.Documents

/-! Repeated calls. A repeated call is recognised by the hash of a document in which the instants of the call are written
out under the session's time zone: what the document shows, and how the calls answer where it was hashed before. -/
namespace Taskq
open Relational

section Documents

/-- The document that the intent hash of a workflow step is taken of. -/
def EnqueueArgs.intent (a : EnqueueArgs) (deps : List Uuid) (timeText : Time → String) : Jsonb :=
  let base : Jsonb := .build [
    ("queue", .str a.queue), ("job_type", .ofText? a.jobType), ("payload", a.payload.getD .null),
    ("priority", intJson a.priority), ("scheduled_at", .ofText? (a.scheduledAt.map timeText)),
    ("idempotency_key", .ofText? a.idempotencyKey), ("concurrency_key", .ofText? a.concurrencyKey),
    ("affinity_key", .ofText? a.affinityKey), ("max_attempts", intJson a.maxAttempts),
    ("lease_seconds", intJson a.leaseSeconds), ("backoff_mode", .ofText? a.backoffMode),
    ("backoff_base", intJson a.backoffBase), ("backoff_cap", intJson a.backoffCap),
    ("depends_on", .arr (deps.map uuidJson)),
    ("parent_job_id", (a.parentJobId.map uuidJson).getD .null), ("headers", a.headers.getD .null)]
  let limits : Jsonb := if a.ttlSeconds.isSome ∨ a.flowKey.isSome then
    .build [("ttl_seconds", intJson a.ttlSeconds), ("flow_key", .ofText? a.flowKey)] else .obj []
  base.merge limits

theorem intentHash_eq (env : Env) (a : EnqueueArgs) (deps : List Uuid) :
    intentHash env a deps = env.sha256 (a.intent deps env.timeText).text := rfl

/-- The document of a member followup. -/
def Followup.intent (f : Followup) (q : Queue) (parentId : Uuid) (parent : JobRow) (timeText : Time → String) : Jsonb :=
  .build [
    ("queue", .str f.queue), ("job_type", .str f.jobType), ("payload", f.payload),
    ("headers", f.headers), ("priority", .ofInt (f.priority.getD q.defaultPriority)),
    ("scheduled_at", .ofText? (f.scheduledAt.map timeText)),
    ("max_attempts", .ofInt (f.maxAttempts.getD q.defaultMaxAttempts)),
    ("lease_seconds", .ofInt (f.leaseSeconds.getD q.defaultLeaseSeconds)),
    ("parent_job_id", .str (Uuid.text parentId)), ("flow_key", .ofText? parent.flowKey)]

theorem Followup.intentHash_eq (env : Env) (f : Followup) (q : Queue) (parentId : Uuid) (parent : JobRow) :
    f.intentHash env q parentId parent = env.sha256 (f.intent q parentId parent env.timeText).text := rfl

/-- The document of a fire call. -/
def FireArgs.document (a : FireArgs) (timeText : Time → String) : Jsonb :=
  .build [("kind", .str "fire"), ("version", .ofInt a.definitionVersion),
    ("occurrences", .arr (a.occurrences.map fun t => .str (timeText t))),
    ("next_fire_at", .str (timeText a.nextFireAt))]

theorem FireArgs.hash_eq (env : Env) (a : FireArgs) : a.hash env = env.sha256 (a.document env.timeText).text := rfl

variable {f g : Time → String}

theorem ofText?_blank (t : Option Time) (f g : Time → String) :
    (Jsonb.ofText? (t.map f)).blank = (Jsonb.ofText? (t.map g)).blank := by
  cases t <;> rfl

theorem ofText?_inj {s t : Option String} (same : Jsonb.ofText? s = Jsonb.ofText? t) : s = t := by
  cases s <;> cases t <;> simp_all [Jsonb.ofText?]

theorem scheduled_congr {t : Option Time} : t.map f = t.map g ↔ ∀ due ∈ t.toList, f due = g due := by
  cases t <;> simp

/-- A step's document shows how the session writes the scheduled time, and nothing else of the session. -/
theorem EnqueueArgs.intent_text {a : EnqueueArgs} {deps : List Uuid} :
    (a.intent deps f).text = (a.intent deps g).text ↔ ∀ t ∈ a.scheduledAt.toList, f t = g t := by
  rw [← scheduled_congr]
  refine ⟨fun same => ?_, fun same => by rw [intent, intent, same]⟩
  have shape : (a.intent deps f).blank = (a.intent deps g).blank := by
    simp only [intent, Jsonb.blank_merge, Jsonb.blank_build, List.map_cons, Prod.map_apply, ofText?_blank a.scheduledAt f g]
  have field := congrArg (·.field? "scheduled_at") (Jsonb.text_injective_of_blank shape same)
  have empty : Jsonb.obj [] = .build [] := rfl
  simp only [intent, empty] at field
  split_ifs at field <;> simp only [Jsonb.field?_merge_build] at field <;> exact ofText?_inj (by simpa using field)

theorem Followup.intent_text {step : Followup} {q : Queue} {parentId : Uuid} {parent : JobRow} :
    (step.intent q parentId parent f).text = (step.intent q parentId parent g).text ↔
      ∀ t ∈ step.scheduledAt.toList, f t = g t := by
  rw [← scheduled_congr]
  refine ⟨fun same => ?_, fun same => by rw [intent, intent, same]⟩
  have shape : (step.intent q parentId parent f).blank = (step.intent q parentId parent g).blank := by
    simp only [intent, Jsonb.blank_build, List.map_cons, Prod.map_apply, ofText?_blank step.scheduledAt f g]
  have field := congrArg (·.field? "scheduled_at") (Jsonb.text_injective_of_blank shape same)
  simp only [intent, Jsonb.field?_build] at field
  exact ofText?_inj (by simpa using field)

theorem texts_blank (times : List Time) (f g : Time → String) :
    (Jsonb.arr (times.map fun t => .str (f t))).blank = (Jsonb.arr (times.map fun t => .str (g t))).blank := by
  refine congrArg Jsonb.arr ?_
  induction times with
  | nil => rfl
  | cons t times ih => exact congrArg (_ :: ·) ih

/-- A fire call's document shows how the session writes every instant of the call. -/
theorem FireArgs.document_text {a : FireArgs} :
    (a.document f).text = (a.document g).text ↔ ∀ t ∈ a.occurrences ++ [a.nextFireAt], f t = g t := by
  constructor
  · intro same
    have shape : (a.document f).blank = (a.document g).blank := by
      simp only [document, Jsonb.blank_build, List.map_cons, Prod.map_apply, texts_blank a.occurrences f g]
      rfl
    have whole := Jsonb.text_injective_of_blank shape same
    have next := congrArg (·.field? "next_fire_at") whole
    have all := congrArg (·.field? "occurrences") whole
    simp only [document, Jsonb.field?_build] at next all
    have next : f a.nextFireAt = g a.nextFireAt := by simpa using next
    have all : ∀ t ∈ a.occurrences, f t = g t := by simpa using all
    intro t member
    obtain here | rfl := by simpa using List.mem_append.mp member
    · exact all t here
    · exact next
  · intro same
    have all : a.occurrences.map (fun t => Jsonb.str (f t)) = a.occurrences.map fun t => .str (g t) :=
      List.map_congr_left fun t member => congrArg Jsonb.str (same t (by simp [member]))
    rw [document, document, all, same a.nextFireAt (by simp)]

end Documents

/-- A time zone as a session shows it: how it writes instants, and how it reads them. -/
structure TimeZone where
  text : Time → String
  read : String → Option Time

/-- The same surroundings under another time zone. -/
def Env.inZone (env : Env) (z : TimeZone) : Env := { env with timeText := z.text, parseTime := z.read }

section Single

/-- The dependencies of a call as they are hashed. -/
def EnqueueArgs.deps (a : EnqueueArgs) : List Uuid := (a.dependsOn.filterMap id).insertionSort (· ≤ ·)

variable {env env₀ : Env} {a : EnqueueArgs} {db db' : Db} {z : TimeZone} {w id : Uuid} {member : Job}
  {r : (Uuid × Bool) × Db}

/-- A single call whose step has a job: the call is checked, and answered with that job if it has the intent. -/
theorem enqueue_held (given : a.workflowId = some w) (there : stepHolder db.toCore w a.stepKey = some (id, member)) :
    enqueue env a db = .ok r ↔ (∃ q, Accepts env a q db) ∧ (∃ workflow, db.workflows.get? w = some workflow ∧
      a.queue ∈ workflow.declaredQueues ∧ sameStep workflow (intentHash env a a.deps) member.toJobRow = true) ∧
      r = ((id, false), db) := by
  unfold EnqueueArgs.deps
  constructor
  · intro run
    simp only [enqueue, seq_eq_ok] at run
    obtain ⟨⟨⟩, checked, run⟩ := run
    split at run
    · cases run
    · rename_i q stored
      simp only [seq_eq_ok, ensure_eq_ok] at run
      obtain ⟨-, capped, m, resolve, run⟩ := run
      simp only [resolveMembership, given, there, seq_eq_ok] at resolve
      obtain ⟨⟨⟩, owned, resolve⟩ := resolve
      split at resolve
      · cases resolve
      · rename_i workflow known
        simp only [seq_eq_ok, ensure_eq_ok] at resolve
        obtain ⟨-, declared, -, same, finish⟩ := resolve
        cases finish
        cases run
        exact ⟨⟨q, checked, stored, capped, owned⟩, ⟨workflow, known, declared, same⟩, rfl⟩
  · rintro ⟨⟨q, passes⟩, ⟨workflow, known, declared, same⟩, rfl⟩
    have resolve : resolveMembership env a db = .ok (.existing id) := by
      simp only [resolveMembership, given, known, there]
      exact seq_eq_ok.mpr ⟨(), passes.owned, seq_eq_ok.mpr ⟨(), ensure_eq_ok.mpr declared,
        seq_eq_ok.mpr ⟨(), ensure_eq_ok.mpr same, rfl⟩⟩⟩
    refine seq_eq_ok.mpr ⟨(), passes.checked, ?_⟩
    simp only [passes.stored]
    exact seq_eq_ok.mpr ⟨(), ensure_eq_ok.mpr passes.capped, seq_eq_ok.mpr ⟨_, resolve, rfl⟩⟩

theorem Accepts.zone {q : Queue} (passes : Accepts (env.inZone z) a q db) (z' : TimeZone) :
    Accepts (env.inZone z') a q db := ⟨passes.checked, passes.stored, passes.capped, passes.owned⟩

theorem sameStep_iff {workflow : Workflow} {hash : String} {row : JobRow} : sameStep workflow hash row = true ↔
    row.workflowIntentHash = some hash ∧ row.continuationPolicyHash = workflow.continuationPolicyHash := by
  simp [sameStep]

/-- A step that is recognised under one time zone is recognised under another when its hash is the same. -/
theorem enqueue_zones {z₁ : TimeZone} (z₂ : TimeZone) (given : a.workflowId = some w)
    (there : stepHolder db.toCore w a.stepKey = some (id, member))
    (accepted : enqueue (env.inZone z₁) a db = .ok r) : r = ((id, false), db) ∧
      (enqueue (env.inZone z₂) a db = .ok r ↔
        env.sha256 (a.intent a.deps z₁.text).text = env.sha256 (a.intent a.deps z₂.text).text) := by
  obtain ⟨⟨q, passes⟩, ⟨workflow, known, declared, same⟩, rfl⟩ := (enqueue_held given there).mp accepted
  refine ⟨rfl, (enqueue_held given there).trans ?_⟩
  have recorded := (sameStep_iff.mp same).1
  constructor
  · rintro ⟨-, ⟨_, -, -, again⟩, -⟩
    exact Option.some.inj (recorded.symm.trans (sameStep_iff.mp again).1)
  · intro hash
    have hash : intentHash (env.inZone z₁) a a.deps = intentHash (env.inZone z₂) a a.deps := hash
    exact ⟨⟨q, passes.zone z₂⟩, ⟨workflow, known, declared, hash ▸ same⟩, rfl⟩

/-- The job is a step of the workflow. -/
def HasStep (db : Db) (w : Uuid) (key : Option String) (id : Uuid) : Prop :=
  ∃ job, db.jobs.get? id = some job ∧ job.workflowId = some w ∧ job.stepKey = key

theorem stepHolder_hasStep {key : Option String} (there : stepHolder db.toCore w key = some (id, member)) :
    HasStep db w key id := by
  obtain ⟨stored, good⟩ := Table.mem_select.mp (List.mem_of_mem_head? there)
  exact ⟨member, stored, of_decide_eq_true good⟩

/-- The job that a call of a workflow answers is its step. -/
theorem enqueue_hasStep {created : Bool} (given : a.workflowId = some w)
    (run : enqueue env a db = .ok ((id, created), db')) : HasStep db' w a.stepKey id := by
  simp only [enqueue, seq_eq_ok] at run
  obtain ⟨-, -, run⟩ := run
  split at run
  · cases run
  · rename_i q stored
    simp only [seq_eq_ok] at run
    obtain ⟨-, -, m, resolve, run⟩ := run
    simp only [resolveMembership, given, seq_eq_ok] at resolve
    obtain ⟨-, -, resolve⟩ := resolve
    split at resolve
    · cases resolve
    · rename_i workflow known
      simp only [seq_eq_ok] at resolve
      obtain ⟨-, -, resolve⟩ := resolve
      split at resolve
      · rename_i holder member there
        obtain ⟨-, -, finish⟩ := seq_eq_ok.mp resolve
        cases finish
        cases run
        exact stepHolder_hasStep there
      · obtain ⟨-, -, live, -, finish⟩ := by simpa only [seq_eq_ok] using resolve
        cases finish
        simp only [seq_eq_ok] at run
        obtain ⟨-, -, ⟨⟨id', created'⟩, inserted⟩, insert, run⟩ := run
        have outcome := insertOrConverge_inserted insert
        cases outcome with
        | created taken insert =>
          simp only [if_true, seq_eq_ok] at run
          obtain ⟨finished, finish, done⟩ := run
          cases done
          obtain ⟨job, _, _, row, -, -, -, -, -, rfl⟩ := insertJob_frame insert
          have jobs : db'.jobs = _ := congrArg Core.jobs (finishEnqueue_frame finish).1
          refine ⟨job, ?_, by rw [row]; exact given, by rw [row]; rfl⟩
          rw [jobs]
          exact Table.get?_put_self _ _ _
        | held converge =>
          simp only [Bool.false_eq_true, if_false] at run
          cases run
          simp only [convergeOn] at converge
          split at converge
          · rename_i there
            obtain ⟨-, -, finish⟩ := seq_eq_ok.mp converge
            cases finish
            obtain ⟨job, here, step⟩ := stepHolder_hasStep there
            exact ⟨job, here, step⟩
          · split at converge
            · cases converge
            · rename_i holds
              obtain ⟨key, -, holds⟩ := Option.bind_eq_some_iff.mp holds
              simp only [seq_eq_ok, ensure_eq_ok] at converge
              obtain ⟨-, ⟨same, step, -⟩, finish⟩ := converge
              cases finish
              exact ⟨_, (keyHolder_eq_some holds).1, same, step⟩

end Single

section Bulk

variable {env env₀ : Env} {queue : String} {q : Queue} {spec : Jsonb} {specs : List Jsonb} {index : ℤ}
  {mode : Option (Option Uuid)} {slot : BulkSlot} {slots slots' : List BulkSlot} {db db' mid : Db} {z z₁ z₂ : TimeZone}
  {w : Uuid} {workflow : Workflow} {joined : Option (Uuid × Workflow)} {args : EnqueueArgs}

/-- Both sessions read the scheduled time of a spec as the same instant. -/
def SameInstant (z₁ z₂ : TimeZone) (spec : Jsonb) : Prop :=
  ∀ t, spec.fieldText? "scheduled_at" = some t → z₁.read t = z₂.read t

theorem parseSpec_zones (same : SameInstant z₁ z₂ spec) :
    parseSpec (env.inZone z₁) queue q spec = parseSpec (env.inZone z₂) queue q spec := by
  have ints (z : TimeZone) : castInt (env.inZone z) = castInt env := rfl
  have bounds (z : TimeZone) : boundedInt (env.inZone z) = boundedInt env := rfl
  have ids (z : TimeZone) : (env.inZone z).parseUuid = env.parseUuid := rfl
  have time : castText (env.inZone z₁).parseTime spec "scheduled_at" = castText (env.inZone z₂).parseTime spec "scheduled_at" := by
    unfold castText
    split
    · rfl
    · rename_i t given
      rw [show (env.inZone z₁).parseTime t = (env.inZone z₂).parseTime t from same t given]
  simp only [parseSpec, ints, bounds, ids, time]

theorem parseSpecs_zones (same : ∀ spec ∈ specs, SameInstant z₁ z₂ spec) :
    parseSpecs (env.inZone z₁) queue q specs index mode db = parseSpecs (env.inZone z₂) queue q specs index mode db := by
  induction specs generalizing index mode db with
  | nil => rfl
  | cons spec specs ih =>
    have rest (index : ℤ) (mode : Option (Option Uuid)) (db : Db) :
        parseSpecs (env.inZone z₁) queue q specs index mode db = parseSpecs (env.inZone z₂) queue q specs index mode db :=
      ih fun spec member => same spec (by simp [member])
    simp only [parseSpecs, parseSpec_zones (same spec (by simp)), rest]

/-- What a bulk call reads out of its specs, in order. -/
def bulkArgs (env : Env) (queue : String) (spec : Jsonb) : EnqueueArgs :=
  ⟨queue, spec.fieldText? "job_type", some ((spec.field? "payload").getD (.obj [])),
    specInt env spec "priority", specTime env spec "scheduled_at", spec.fieldText? "idempotency_key",
    spec.fieldText? "concurrency_key", spec.fieldText? "affinity_key", specInt env spec "max_attempts",
    specInt env spec "lease_seconds", spec.fieldText? "backoff_mode", specInt env spec "backoff_base",
    specInt env spec "backoff_cap", [], specUuid env spec "workflow_id", spec.fieldText? "step_key",
    specUuid env spec "parent_job_id", spec.field? "headers", specInt env spec "ttl_seconds",
    spec.fieldText? "flow_key"⟩

def bulkSlots (env : Env) (queue : String) : List Jsonb → ℤ → Uuid → List BulkSlot
  | [], _, _ => []
  | spec :: specs, index, next => ⟨index, bulkArgs env queue spec, next, none⟩ :: bulkSlots env queue specs (index + 1) (next + 1)

theorem parseSpecs_slots (run : parseSpecs env queue q specs index mode db = .ok (slots, db')) :
    slots = bulkSlots env queue specs index db.nextUuid ∧ db' = { db with nextUuid := db.nextUuid + specs.length } := by
  refine ⟨?_, (parseSpecs_eq_ok run).1⟩
  induction specs generalizing index mode db slots with
  | nil =>
    cases run
    rfl
  | cons spec specs ih =>
    simp only [parseSpecs, newUuid, seq_eq_ok, mapError_eq_ok] at run
    obtain ⟨-, -, args, parse, -, -, -, -, ⟨rest, last⟩, loop, finish⟩ := run
    cases finish
    rw [bulkSlots, ih loop, (parseSpec_reads parse).1]
    rfl

/-- The slot's step has a job already. -/
def BulkSlot.Held (db : Db) (w : Uuid) (slot : BulkSlot) : Prop :=
  ∃ id member, stepHolder db.toCore w slot.args.stepKey = some (id, member)

/-- The slot with its job as an existing one. -/
def BulkSlot.answered (db : Db) (w : Uuid) (slot : BulkSlot) : BulkSlot :=
  { slot with answer := (stepHolder db.toCore w slot.args.stepKey).map fun holder => (holder.1, false) }

/-- The job that holds the slot's step has the slot's intent. -/
def BulkSlot.agrees (env : Env) (db : Db) (w : Uuid) (workflow : Workflow) (slot : BulkSlot) : Prop :=
  ∀ id member, stepHolder db.toCore w slot.args.stepKey = some (id, member) →
    sameStep workflow (intentHash env slot.args []) member.toJobRow = true

theorem replaySlot_held (held : slot.Held db w) {slot' : BulkSlot} :
    replaySlot env w workflow db slot = .ok slot' ↔ slot.agrees env db w workflow ∧ slot' = slot.answered db w := by
  obtain ⟨id, member, there⟩ := held
  simp only [replaySlot, BulkSlot.agrees, BulkSlot.answered, there, seq_eq_ok, ensure_eq_ok, Except.ok.injEq,
    Option.some.injEq, Prod.mk.injEq, Option.map_some]
  constructor
  · rintro ⟨-, same, rfl⟩
    refine ⟨?_, rfl⟩
    rintro _ _ ⟨rfl, rfl⟩
    exact same
  · rintro ⟨same, rfl⟩
    exact ⟨(), same id member ⟨rfl, rfl⟩, rfl⟩

theorem mapM_replaySlot_held (held : ∀ slot ∈ slots, slot.Held db w) :
    slots.mapM (replaySlot env w workflow db) = .ok slots' ↔
      (∀ slot ∈ slots, slot.agrees env db w workflow) ∧ slots' = slots.map (·.answered db w) := by
  induction slots generalizing slots' with
  | nil =>
    constructor
    · intro run
      cases run
      simp
    · rintro ⟨-, rfl⟩
      rfl
  | cons slot slots ih =>
    have ih {rest : List BulkSlot} : slots.mapM (replaySlot env w workflow db) = .ok rest ↔ _ :=
      ih fun slot member => held slot (by simp [member])
    simp only [List.mapM_cons, seq_eq_ok, return_eq_ok, replaySlot_held (held slot (by simp)), ih, List.forall_mem_cons,
      List.map_cons]
    constructor
    · rintro ⟨_, ⟨first, rfl⟩, _, ⟨rest, rfl⟩, rfl⟩
      exact ⟨⟨first, rest⟩, rfl⟩
    · rintro ⟨⟨first, rest⟩, rfl⟩
      exact ⟨_, ⟨first, rfl⟩, _, ⟨rest, rfl⟩, rfl⟩

/-- A slot that is answered with an existing job. -/
def BulkSlot.existing (slot : BulkSlot) : Prop := ∃ id, slot.answer = some (id, false)

theorem insertSlots_existing (all : ∀ slot ∈ slots, slot.existing) :
    insertSlots env q joined slots db = .ok (slots, db) := by
  induction slots with
  | nil => rfl
  | cons slot slots ih =>
    obtain ⟨id, answer⟩ := all slot (by simp)
    rw [insertSlots, if_pos (by rw [answer]; rfl), ih fun slot member => all slot (by simp [member])]
    rfl

theorem convergeSlots_existing (all : ∀ slot ∈ slots, slot.existing) :
    convergeSlots env q joined slots db = .ok (slots, db) := by
  induction slots with
  | nil => rfl
  | cons slot slots ih =>
    obtain ⟨id, answer⟩ := all slot (by simp)
    have first : answerSlot env q joined slot db = .ok (slot, db) := by
      rw [answerSlot, if_pos (by rw [answer]; rfl)]
    exact seq_eq_ok.mpr ⟨_, first, seq_eq_ok.mpr ⟨_, ih fun slot member => all slot (by simp [member]), rfl⟩⟩

theorem createdJobs_existing (all : ∀ slot ∈ slots, slot.existing) : createdJobs slots = [] := by
  refine List.filterMap_eq_nil_iff.mpr fun slot member => ?_
  obtain ⟨id, answer⟩ := all slot member
  rw [answer]
  rfl

/-- The specs of a call. -/
def bulkSpecs (jobs : Option Jsonb) : List Jsonb := (jobs.map (·.elements)).getD []

/-- What a bulk call of a workflow checks before it looks at the steps. -/
structure BulkPasses (env : Env) (queue : String) (jobs : Option Jsonb) (w : Uuid) (db : Db) (workflow : Workflow)
    (slots : List BulkSlot) : Prop where
  owned : checkAdmissionOwner env queue db = .ok ()
  array : jobs.any (·.kind = .array) ∧ 1 ≤ (bulkSpecs jobs).length ∧ (bulkSpecs jobs).length ≤ 1000
  parsed : ∃ q, db.queues.get? queue = some q ∧
    parseSpecs env queue q (bulkSpecs jobs) 1 none db = .ok (slots, { db with nextUuid := db.nextUuid + (bulkSpecs jobs).length })
  steps : (slots.map (·.args.stepKey)).Nodup
  keys : (slots.filterMap (·.args.idempotencyKey)).Nodup
  known : db.workflows.get? w = some workflow
  declared : queue ∈ workflow.declaredQueues

/-- The answer of a bulk call whose steps all have jobs. -/
def heldAnswer (db : Db) (w : Uuid) (slots : List BulkSlot) : List (ℤ × Uuid × Bool) :=
  (slots.map (·.answered db w)).filterMap fun s => s.answer.map fun a => (s.index, a.1, a.2)

theorem BulkSlot.Held.existing (held : slot.Held db w) : (slot.answered db w).existing := by
  obtain ⟨id, member, there⟩ := held
  exact ⟨id, by rw [answered, there]; rfl⟩

/-- The steps are looked up where the ids are drawn already. -/
theorem resolveSlots_held (n : ℕ) (head : slots.head?.bind (·.args.workflowId) = some w)
    (held : ∀ slot ∈ slots, slot.Held db w) :
    resolveSlots env queue slots { db with nextUuid := n } = .ok (joined, slots') ↔
      (slots.map (·.args.stepKey)).Nodup ∧ (slots.filterMap (·.args.idempotencyKey)).Nodup ∧
      ∃ workflow, db.workflows.get? w = some workflow ∧ queue ∈ workflow.declaredQueues ∧
        (∀ slot ∈ slots, slot.agrees env db w workflow) ∧ joined = some (w, workflow) ∧
        slots' = slots.map (·.answered db w) := by
  have replays (workflow : Workflow) {slots' : List BulkSlot} :
      slots.mapM (replaySlot env w workflow { db with nextUuid := n }) = .ok slots' ↔ _ := mapM_replaySlot_held held
  simp only [resolveSlots, head, seq_eq_ok, ensure_eq_ok]
  constructor
  · rintro ⟨-, steps, -, keys, run⟩
    split at run
    · cases run
    · rename_i workflow known
      simp only [seq_eq_ok, ensure_eq_ok, replays] at run
      obtain ⟨-, declared, _, ⟨agree, rfl⟩, finish⟩ := run
      cases finish
      exact ⟨steps, keys, workflow, known, declared, agree, rfl, rfl⟩
  · rintro ⟨steps, keys, workflow, known, declared, agree, rfl, rfl⟩
    refine ⟨(), steps, (), keys, ?_⟩
    simp only [known, seq_eq_ok, ensure_eq_ok, replays]
    exact ⟨(), declared, _, ⟨agree, rfl⟩, rfl⟩

/-- A bulk call whose slots are all answered with existing jobs does nothing more. -/
theorem bulk_existing (all : ∀ slot ∈ slots, slot.existing) : (do
    let fresh := slots.countP (·.answer.isNone)
    ensure (fresh = 0 ∨ q.maxDepth.all fun n => queueDepth db queue < n)
      (.mk' .tq429 ("queue " ++ queue ++ " at max_depth " ++ shown q.maxDepth))
    let db ← reserveSlots joined fresh db
    let (slots, db) ← insertSlots env q joined slots db
    let (slots, db) ← convergeSlots env q joined slots db
    let ids := createdJobs slots
    let db := notifyCreated env queue q ids (enqueuedEvents env ids db)
    .ok (slots.filterMap fun s => s.answer.map fun a => (s.index, a.1, a.2), db) : Call (List (ℤ × Uuid × Bool) × Db)) =
      .ok (slots.filterMap fun s => s.answer.map fun a => (s.index, a.1, a.2), db) := by
  have none' : slots.countP (·.answer.isNone) = 0 := by
    refine List.countP_eq_zero.mpr fun slot member => ?_
    obtain ⟨id, answer⟩ := all slot member
    rw [answer]
    exact Bool.false_ne_true
  have reserve : reserveSlots joined 0 db = .ok db := by cases joined <;> rfl
  have quiet : notifyCreated env queue q [] (enqueuedEvents env [] db) = db := by
    simp [notifyCreated, enqueuedEvents]
  simp only [none']
  refine seq_eq_ok.mpr ⟨(), ensure_eq_ok.mpr (.inl trivial), seq_eq_ok.mpr ⟨_, reserve, ?_⟩⟩
  refine seq_eq_ok.mpr ⟨_, insertSlots_existing all, seq_eq_ok.mpr ⟨_, convergeSlots_existing all, ?_⟩⟩
  simp only [createdJobs_existing all, quiet]

/-- A bulk call whose steps all have jobs: the call is checked, and answered with those jobs if they have the intents. -/
theorem enqueueMany_held {jobs : Option Jsonb} {r : List (ℤ × Uuid × Bool) × Db}
    (held : ∀ slot ∈ bulkSlots env queue (bulkSpecs jobs) 1 db.nextUuid, slot.args.workflowId = some w ∧ slot.Held db w) :
    enqueueMany env queue jobs db = .ok r ↔ ∃ workflow slots, BulkPasses env queue jobs w db workflow slots ∧
      (∀ slot ∈ slots, slot.agrees env db w workflow) ∧
      r = (heldAnswer db w slots, { db with nextUuid := db.nextUuid + (bulkSpecs jobs).length }) := by
  have heads {slots : List BulkSlot} (parsed : slots = bulkSlots env queue (bulkSpecs jobs) 1 db.nextUuid)
      (some' : 1 ≤ (bulkSpecs jobs).length) : slots.head?.bind (·.args.workflowId) = some w := by
    cases given : bulkSpecs jobs with
    | nil =>
      rw [given] at some'
      cases some'
    | cons spec specs =>
      rw [given] at parsed held
      rw [parsed]
      exact (held _ List.mem_cons_self).1
  have existing {slots : List BulkSlot} (parsed : slots = bulkSlots env queue (bulkSpecs jobs) 1 db.nextUuid) :
      ∀ slot ∈ slots.map (·.answered db w), slot.existing := by
    intro _ member
    obtain ⟨slot, inside, rfl⟩ := List.mem_map.mp member
    exact (held slot (parsed ▸ inside)).2.existing
  simp only [enqueueMany, seq_eq_ok]
  constructor
  · rintro ⟨⟨⟩, owned, ⟨⟩, array, run⟩
    have array := ensure_eq_ok.mp array
    split at run
    · cases run
    · rename_i q stored
      obtain ⟨⟨slots, after⟩, parse, run⟩ := seq_eq_ok.mp run
      obtain ⟨parsed, rfl⟩ := parseSpecs_slots parse
      obtain ⟨⟨joined, slots'⟩, resolve, run⟩ := seq_eq_ok.mp run
      obtain ⟨steps, keys, workflow, known, declared, agree, rfl, rfl⟩ := (resolveSlots_held _ (heads parsed array.2.1)
        fun slot member => (held slot (parsed ▸ member)).2).mp resolve
      rw [bulk_existing (existing parsed)] at run
      cases run
      exact ⟨workflow, slots, ⟨owned, array, ⟨q, stored, parse⟩, steps, keys, known, declared⟩, agree, rfl⟩
  · rintro ⟨workflow, slots, ⟨owned, array, ⟨q, stored, parse⟩, steps, keys, known, declared⟩, agree, rfl⟩
    obtain ⟨parsed, -⟩ := parseSpecs_slots parse
    have resolve : resolveSlots env queue slots _ = .ok (some (w, workflow), _) := (resolveSlots_held (db.nextUuid + (bulkSpecs jobs).length) (heads parsed array.2.1)
      fun slot member => (held slot (parsed ▸ member)).2).mpr ⟨steps, keys, workflow, known, declared, agree, rfl, rfl⟩
    refine ⟨(), owned, (), ensure_eq_ok.mpr array, ?_⟩
    simp only [stored]
    exact seq_eq_ok.mpr ⟨_, parse, seq_eq_ok.mpr ⟨_, resolve, bulk_existing (existing parsed)⟩⟩

theorem BulkPasses.zone {jobs : Option Jsonb} (passes : BulkPasses (env.inZone z₁) queue jobs w db workflow slots)
    (same : ∀ spec ∈ bulkSpecs jobs, SameInstant z₁ z₂ spec) : BulkPasses (env.inZone z₂) queue jobs w db workflow slots := by
  obtain ⟨q, stored, parse⟩ := passes.parsed
  exact ⟨passes.owned, passes.array, ⟨q, stored, parseSpecs_zones same ▸ parse⟩, passes.steps, passes.keys, passes.known,
    passes.declared⟩

theorem bulkArgs_zones (same : SameInstant z₁ z₂ spec) :
    bulkArgs (env.inZone z₁) queue spec = bulkArgs (env.inZone z₂) queue spec := by
  have time : specTime (env.inZone z₁) spec "scheduled_at" = specTime (env.inZone z₂) spec "scheduled_at" := by
    unfold specTime castText
    split
    · rfl
    · rename_i t given
      rw [show (env.inZone z₁).parseTime t = (env.inZone z₂).parseTime t from same t given]
  have ints (key : String) : specInt (env.inZone z₁) spec key = specInt (env.inZone z₂) spec key := rfl
  have ids (key : String) : specUuid (env.inZone z₁) spec key = specUuid (env.inZone z₂) spec key := rfl
  simp only [bulkArgs, time, ints, ids]

theorem bulkSlots_zones {next : Uuid} (same : ∀ spec ∈ specs, SameInstant z₁ z₂ spec) :
    bulkSlots (env.inZone z₁) queue specs index next = bulkSlots (env.inZone z₂) queue specs index next := by
  induction specs generalizing index next with
  | nil => rfl
  | cons spec specs ih =>
    rw [bulkSlots, bulkSlots, bulkArgs_zones (same spec (by simp)), ih fun spec member => same spec (by simp [member])]

theorem mem_bulkSlots {next : Uuid} (P : EnqueueArgs → Prop) : (∀ slot ∈ bulkSlots env queue specs index next, P slot.args) ↔
    ∀ spec ∈ specs, P (bulkArgs env queue spec) := by
  induction specs generalizing index next with
  | nil => simp [bulkSlots]
  | cons spec specs ih => simp only [bulkSlots, List.forall_mem_cons, ih]

/-- Steps that are recognised under one time zone are recognised under another when all their hashes are the same. -/
theorem enqueueMany_zones {jobs : Option Jsonb} {r : List (ℤ × Uuid × Bool) × Db}
    (same : ∀ spec ∈ bulkSpecs jobs, SameInstant z₁ z₂ spec)
    (held : ∀ slot ∈ bulkSlots (env.inZone z₁) queue (bulkSpecs jobs) 1 db.nextUuid,
      slot.args.workflowId = some w ∧ slot.Held db w)
    (accepted : enqueueMany (env.inZone z₁) queue jobs db = .ok r) :
    r = (heldAnswer db w (bulkSlots (env.inZone z₁) queue (bulkSpecs jobs) 1 db.nextUuid),
      { db with nextUuid := db.nextUuid + (bulkSpecs jobs).length }) ∧
    (enqueueMany (env.inZone z₂) queue jobs db = .ok r ↔ ∀ spec ∈ bulkSpecs jobs,
      env.sha256 ((bulkArgs (env.inZone z₁) queue spec).intent [] z₁.text).text =
        env.sha256 ((bulkArgs (env.inZone z₁) queue spec).intent [] z₂.text).text) := by
  obtain ⟨workflow, slots, passes, agree, rfl⟩ := (enqueueMany_held held).mp accepted
  obtain ⟨q, stored, parse⟩ := passes.parsed
  obtain ⟨rfl, -⟩ := parseSpecs_slots parse
  refine ⟨rfl, ?_⟩
  rw [enqueueMany_held (bulkSlots_zones same ▸ held), ← mem_bulkSlots fun args =>
    env.sha256 (args.intent [] z₁.text).text = env.sha256 (args.intent [] z₂.text).text]
  constructor
  · rintro ⟨workflow', slots', passes', agree', -⟩ slot member
    obtain ⟨q', stored', parse'⟩ := passes'.parsed
    obtain ⟨rfl, -⟩ := parseSpecs_slots parse'
    obtain ⟨-, id, job, there⟩ := held slot member
    have first := (sameStep_iff.mp (agree slot member id job there)).1
    have second := (sameStep_iff.mp (agree' slot (bulkSlots_zones same ▸ member) id job there)).1
    exact Option.some.inj (first.symm.trans second)
  · intro hashes
    refine ⟨workflow, _, passes.zone same, fun slot member id job there => ?_, rfl⟩
    have hash : intentHash (env.inZone z₁) slot.args [] = intentHash (env.inZone z₂) slot.args [] := hashes slot member
    exact hash ▸ agree slot member id job there

/-- Steps that have their jobs keep them. -/
def StepsKept (w : Uuid) (db db' : Db) : Prop := ∀ key id, HasStep db w key id → HasStep db' w key id

theorem insertJob_stepsKept {id : Uuid} {row : JobRow} (run : insertJob env id row db = .ok (some db')) :
    StepsKept w db db' := by
  obtain ⟨_, _, _, -, -, -, fresh, -, -, rfl⟩ := insertJob_frame run
  rintro key j ⟨job, here, step⟩
  have apart : j ≠ id := fun same => nomatch (same ▸ here).symm.trans fresh
  exact ⟨job, (Table.get?_put_of_ne _ _ apart).trans here, step⟩

/-- The job of a slot is its step. -/
theorem insertJob_hasStep (given : slot.args.workflowId = some w)
    (run : insertJob env slot.id (slot.row env q joined) db = .ok (some db')) : HasStep db' w slot.args.stepKey slot.id := by
  obtain ⟨job, _, _, row, -, -, -, -, -, rfl⟩ := insertJob_frame run
  exact ⟨job, Table.get?_put_self _ _ _, by rw [row]; exact given, by rw [row]; rfl⟩

/-- An answered slot has the job of its step. -/
def BulkSlot.Placed (db : Db) (w : Uuid) (slot : BulkSlot) : Prop :=
  ∀ answer, slot.answer = some answer → HasStep db w slot.args.stepKey answer.1

/-- A slot on its way through the call. -/
def BulkSlot.Follows (slot slot' : BulkSlot) : Prop := slot'.index = slot.index ∧ slot'.args = slot.args

theorem BulkSlot.Placed.kept (placed : slot.Placed db w) (kept : StepsKept w db db') : slot.Placed db' w :=
  fun answer given => kept _ _ (placed answer given)

theorem insertSlots_placed (given : ∀ slot ∈ slots, slot.args.workflowId = some w)
    (run : insertSlots env q joined slots db = .ok (slots', db')) (placed : ∀ slot ∈ slots, slot.Placed db w) :
    StepsKept w db db' ∧ List.Forall₂ BulkSlot.Follows slots slots' ∧ ∀ slot ∈ slots', slot.Placed db' w := by
  induction slots generalizing db slots' with
  | nil =>
    cases run
    exact ⟨fun _ _ has => has, .nil, placed⟩
  | cons slot slots ih =>
    have given' : ∀ slot ∈ slots, slot.args.workflowId = some w := fun slot member => given slot (by simp [member])
    have placed' : ∀ slot ∈ slots, slot.Placed db w := fun slot member => placed slot (by simp [member])
    unfold insertSlots at run
    split at run
    · obtain ⟨⟨rest, last⟩, loop, finish⟩ := seq_eq_ok.mp run
      cases finish
      obtain ⟨kept, follow, later⟩ := ih given' loop placed'
      exact ⟨kept, .cons ⟨rfl, rfl⟩ follow, List.forall_mem_cons.mpr ⟨(placed slot (by simp)).kept kept, later⟩⟩
    · obtain ⟨inserted, insert, run⟩ := seq_eq_ok.mp run
      cases inserted with
      | some mid =>
        obtain ⟨⟨rest, last⟩, loop, finish⟩ := seq_eq_ok.mp run
        cases finish
        have first : StepsKept w db mid := insertJob_stepsKept insert
        obtain ⟨kept, follow, later⟩ := ih given' loop fun slot member => (placed' slot member).kept first
        refine ⟨fun key id has => kept key id (first key id has), .cons ⟨rfl, rfl⟩ follow,
          List.forall_mem_cons.mpr ⟨?_, later⟩⟩
        rintro _ ⟨⟩
        exact kept _ _ (insertJob_hasStep (given slot (by simp)) insert)
      | none =>
        obtain ⟨⟨rest, last⟩, loop, finish⟩ := seq_eq_ok.mp run
        cases finish
        obtain ⟨kept, follow, later⟩ := ih given' loop placed'
        exact ⟨kept, .cons ⟨rfl, rfl⟩ follow, List.forall_mem_cons.mpr ⟨(placed slot (by simp)).kept kept, later⟩⟩

theorem convergeSlot_hasStep {tries : ℕ} {answer : Uuid × Bool} (given : slot.args.workflowId = some w)
    (run : convergeSlot env q (some (w, workflow)) slot tries db = .ok (answer, db')) :
    StepsKept w db db' ∧ HasStep db' w slot.args.stepKey answer.1 := by
  induction tries with
  | zero => cases run
  | succ tries ih =>
    unfold convergeSlot at run
    split at run
    · rename_i there
      simp only [seq_eq_ok] at run
      obtain ⟨-, -, finish⟩ := run
      cases finish
      obtain ⟨_, holds, same⟩ := Option.map_eq_some_iff.mp there
      cases same
      exact ⟨fun _ _ has => has, stepHolder_hasStep holds⟩
    · split at run
      · simp only [seq_eq_ok, ensure_eq_ok] at run
        obtain ⟨-, alone, -⟩ := run
        cases alone
      · obtain ⟨inserted, insert, run⟩ := seq_eq_ok.mp run
        cases inserted with
        | some inserted =>
          cases run
          exact ⟨insertJob_stepsKept insert, insertJob_hasStep given insert⟩
        | none => exact ih run

theorem convergeSlots_placed (given : ∀ slot ∈ slots, slot.args.workflowId = some w)
    (placed : ∀ slot ∈ slots, slot.Placed db w)
    (run : convergeSlots env q (some (w, workflow)) slots db = .ok (slots', db')) :
    StepsKept w db db' ∧ List.Forall₂ (fun slot slot' => slot.Follows slot' ∧ slot'.answer.isSome = true) slots slots' ∧
      ∀ slot ∈ slots', slot.Placed db' w := by
  induction slots generalizing db slots' with
  | nil =>
    cases run
    exact ⟨fun _ _ has => has, .nil, placed⟩
  | cons slot slots ih =>
    have given' : ∀ slot ∈ slots, slot.args.workflowId = some w := fun slot member => given slot (by simp [member])
    simp only [convergeSlots, seq_eq_ok] at run
    obtain ⟨⟨done, mid⟩, first, ⟨rest, last⟩, loop, finish⟩ := run
    cases finish
    have step : StepsKept w db mid ∧ slot.Follows done ∧ done.answer.isSome = true ∧ done.Placed mid w := by
      unfold answerSlot at first
      split at first
      · rename_i answered
        cases first
        exact ⟨fun _ _ has => has, ⟨rfl, rfl⟩, answered, placed slot (by simp)⟩
      · obtain ⟨⟨answer, converged⟩, converge, finish⟩ := seq_eq_ok.mp first
        cases finish
        obtain ⟨kept, has⟩ := convergeSlot_hasStep (given slot (by simp)) converge
        exact ⟨kept, ⟨rfl, rfl⟩, rfl, by rintro _ ⟨⟩; exact has⟩
    obtain ⟨kept, follows, answered, here⟩ := step
    obtain ⟨kept', follow, later⟩ := ih given' (fun slot member => (placed slot (by simp [member])).kept kept) loop
    exact ⟨fun key id has => kept' key id (kept key id has), .cons ⟨follows, answered⟩ follow,
      List.forall_mem_cons.mpr ⟨here.kept kept', later⟩⟩

theorem resolveSlots_placed (head : slots.head?.bind (·.args.workflowId) = some w) (open' : ∀ slot ∈ slots, slot.answer = none)
    (run : resolveSlots env queue slots db = .ok (joined, slots')) :
    (∃ workflow, joined = some (w, workflow)) ∧ List.Forall₂ BulkSlot.Follows slots slots' ∧ ∀ slot ∈ slots', slot.Placed db w := by
  simp only [resolveSlots, head, seq_eq_ok] at run
  obtain ⟨-, -, -, -, run⟩ := run
  split at run
  · cases run
  · rename_i workflow known
    simp only [seq_eq_ok] at run
    obtain ⟨-, -, _, replay, finish⟩ := run
    cases finish
    have replays := mapM_replaySlot replay
    refine ⟨⟨workflow, rfl⟩, replays.imp fun slot slot' step => ?_, fun slot' member => ?_⟩
    · obtain ⟨args, -, -⟩ := replaySlot_eq_ok step
      refine ⟨?_, args⟩
      unfold replaySlot at step
      split at step
      · obtain ⟨-, -, finish⟩ := seq_eq_ok.mp step
        cases finish
        rfl
      · obtain ⟨-, -, finish⟩ := seq_eq_ok.mp step
        obtain ⟨-, -, finish⟩ := seq_eq_ok.mp finish
        cases finish
        rfl
    · obtain ⟨slot, inside, step⟩ := forall₂_right replays member
      unfold replaySlot at step
      split at step
      · rename_i there
        obtain ⟨-, -, finish⟩ := seq_eq_ok.mp step
        cases finish
        rintro _ ⟨⟩
        exact stepHolder_hasStep there
      · obtain ⟨-, -, finish⟩ := seq_eq_ok.mp step
        obtain ⟨-, -, finish⟩ := seq_eq_ok.mp finish
        cases finish
        intro answer given
        cases (open' slot' inside).symm.trans given

theorem follows_then {R : BulkSlot → BulkSlot → Prop} {last : List BulkSlot}
    (first : List.Forall₂ BulkSlot.Follows slots slots') (second : List.Forall₂ R slots' last)
    (compose : ∀ {a b c : BulkSlot}, a.Follows b → R b c → R a c) : List.Forall₂ R slots last := by
  induction first generalizing last with
  | nil => exact second
  | cons head _ ih =>
    cases second with
    | cons head' tail' => exact .cons (compose head head') (ih tail')

theorem follows_named (follows : List.Forall₂ BulkSlot.Follows slots slots')
    (given : ∀ slot ∈ slots, slot.args.workflowId = some w) : ∀ slot ∈ slots', slot.args.workflowId = some w := by
  intro slot' member
  obtain ⟨slot, inside, -, args⟩ := forall₂_right follows member
  rw [args]
  exact given slot inside

theorem bulkSlots_open {next : Uuid} : ∀ slot ∈ bulkSlots env queue specs index next, slot.answer = none := by
  induction specs generalizing index next with
  | nil => exact fun _ member => nomatch member
  | cons spec specs ih => exact List.forall_mem_cons.mpr ⟨rfl, ih⟩

/-- The answers of slots that all have one. -/
theorem forall₂_answers {R : BulkSlot → BulkSlot → Prop}
    (all : List.Forall₂ (fun slot slot' => R slot slot' ∧ slot'.answer.isSome = true) slots slots') :
    List.Forall₂ (fun slot answer => ∃ slot' ∈ slots', R slot slot' ∧ ∃ a, slot'.answer = some a ∧ answer = (slot'.index, a.1, a.2))
      slots (slots'.filterMap fun s => s.answer.map fun a => (s.index, a.1, a.2)) := by
  induction all with
  | nil => exact .nil
  | @cons slot slot' slots slots' head _ ih =>
    obtain ⟨related, answered⟩ := head
    obtain ⟨a, given⟩ := Option.isSome_iff_exists.mp answered
    rw [List.filterMap_cons, given]
    refine .cons ⟨slot', List.mem_cons_self, related, a, given, rfl⟩ (ih.imp ?_)
    rintro _ _ ⟨later, member, rest⟩
    exact ⟨later, List.mem_cons_of_mem _ member, rest⟩

/-- The jobs that a bulk call of a workflow answers are its steps, in the order of the specs. -/
theorem enqueueMany_hasSteps {jobs : Option Jsonb} {answers : List (ℤ × Uuid × Bool)}
    (given : ∀ spec ∈ bulkSpecs jobs, (bulkArgs env queue spec).workflowId = some w)
    (run : enqueueMany env queue jobs db = .ok (answers, db')) :
    List.Forall₂ (fun slot answer => answer.1 = slot.index ∧ HasStep db' w slot.args.stepKey answer.2.1)
      (bulkSlots env queue (bulkSpecs jobs) 1 db.nextUuid) answers := by
  simp only [enqueueMany, seq_eq_ok] at run
  obtain ⟨-, -, ⟨⟩, array, run⟩ := run
  have array : _ ∧ 1 ≤ (bulkSpecs jobs).length ∧ _ := ensure_eq_ok.mp array
  split at run
  · cases run
  · rename_i q stored
    simp only [seq_eq_ok] at run
    obtain ⟨⟨slots, parsed⟩, parse, ⟨joined, resolved⟩, resolve, -, -, reserved, taken, ⟨inserted, mid⟩, insert,
      ⟨converged, last⟩, converge, finish⟩ := run
    cases finish
    obtain ⟨rfl, rfl⟩ := parseSpecs_slots parse
    have named : ∀ slot ∈ bulkSlots env queue (bulkSpecs jobs) 1 db.nextUuid, slot.args.workflowId = some w :=
      (mem_bulkSlots fun args => args.workflowId = some w).mpr given
    have head : (bulkSlots env queue (bulkSpecs jobs) 1 db.nextUuid).head?.bind (·.args.workflowId) = some w := by
      cases specs : bulkSpecs jobs with
      | nil =>
        rw [specs] at array
        cases array.2.1
      | cons spec specs' => exact given spec (by rw [specs]; exact List.mem_cons_self)
    obtain ⟨⟨workflow, rfl⟩, follows, placed⟩ := resolveSlots_placed head bulkSlots_open resolve
    obtain ⟨counts, rfl⟩ := reserveSlots_frame taken
    obtain ⟨-, follows', placed'⟩ := insertSlots_placed (follows_named follows named) insert
      fun slot member => (placed slot member).kept fun _ _ has => has
    have named' := follows_named follows' (follows_named follows named)
    obtain ⟨-, answered, placed''⟩ := convergeSlots_placed named' placed' converge
    have quiet (id : Uuid) : (notifyCreated env queue q (createdJobs converged)
        (enqueuedEvents env (createdJobs converged) last)).jobs.get? id = last.jobs.get? id := by
      have path := (enqueuedEvents_path (S := ∅) env (createdJobs converged) last).trans
        (notifyCreated_path env queue q (createdJobs converged) _)
      exact path.steps.row_eq (by simp)
    have compose {a b c : BulkSlot} (first : a.Follows b) (second : b.Follows c ∧ c.answer.isSome = true) :
        a.Follows c ∧ c.answer.isSome = true :=
      ⟨⟨second.1.1.trans first.1, second.1.2.trans first.2⟩, second.2⟩
    refine (forall₂_answers (follows_then follows (follows_then follows' answered compose) compose)).imp ?_
    rintro slot _ ⟨slot', member, ⟨index, args⟩, answer, given, rfl⟩
    obtain ⟨job, here, step⟩ := placed'' slot' member answer given
    exact ⟨index, job, (quiet _).trans here, args ▸ step⟩

end Bulk

section Followup

variable {env : Env} {f : Followup} {q : Queue} {row : JobRow} {key parentQueue : String} {spec : Jsonb} {index : ℤ}
  {parentId id : Uuid} {parent job : Job} {db : Db} {r : (Uuid × Bool) × Db} {z₁ z₂ : TimeZone}

/-- A followup whose key has a live holder: nothing is inserted, and the holder must agree with it. -/
theorem insertFollowup_held {tries : ℕ} (keyed : row.idempotencyKey = some key) (active : row.status.active = true)
    (absent : db.jobs.get? db.nextUuid = none) (holds : keyHolder db.toCore row.queue key = some (id, job)) :
    insertFollowup env f q row (tries + 1) db = .ok r ↔
      insertJob env db.nextUuid row { db with nextUuid := db.nextUuid + 1 } = .ok none ∧
        sameFollowup f row job.toJobRow = true ∧ r = ((id, false), { db with nextUuid := db.nextUuid + 1 }) := by
  have holds' : keyHolder { db with nextUuid := db.nextUuid + 1 }.toCore row.queue key = some (id, job) := holds
  simp only [insertFollowup, newUuid, seq_eq_ok, keyed, Option.getD_some, holds']
  constructor
  · rintro ⟨inserted, insert, run⟩
    cases inserted with
    | some inserted =>
      obtain ⟨_, _, _, -, -, clear, -, -, -, -⟩ := insertJob_frame insert
      cases holds.symm.trans (idemClash_eq_false keyed active absent clear)
    | none =>
      simp only [seq_eq_ok, ensure_eq_ok] at run
      obtain ⟨-, same, finish⟩ := run
      exact ⟨insert, same, (Except.ok.inj finish).symm⟩
  · rintro ⟨insert, same, rfl⟩
    refine ⟨none, insert, ?_⟩
    exact seq_eq_ok.mpr ⟨(), ensure_eq_ok.mpr same, rfl⟩

theorem parseFollowup_zones (same : SameInstant z₁ z₂ spec) :
    parseFollowup (env.inZone z₁) parentQueue spec index = parseFollowup (env.inZone z₂) parentQueue spec index := by
  have time (e : SqlError) : timeField (env.inZone z₁) spec "scheduled_at" e = timeField (env.inZone z₂) spec "scheduled_at" e := by
    unfold timeField
    split
    · rfl
    · rename_i t given
      have read := same t (by rw [Jsonb.fieldText?, given]; rfl)
      rw [show (env.inZone z₁).parseTime t = (env.inZone z₂).parseTime t from read]
    · rfl
  simp only [parseFollowup, time]

/-- The queue of a followup, and the key under which it is inserted. -/
def followupQueue (parentQueue : String) (spec : Jsonb) : String := (spec.fieldText? "queue").getD parentQueue

def followupKey (parentId : Uuid) (spec : Jsonb) : String := chainPrefix parentId ++ (spec.fieldText? "step").getD ""

theorem parseFollowup_queue (run : parseFollowup env parentQueue spec index = .ok f) :
    f.queue = followupQueue parentQueue spec := by
  simp only [parseFollowup, seq_eq_ok] at run
  obtain ⟨-, -, -, -, -, -, -, -, _, -, _, -, _, -, _, -, -, -, finish⟩ := run
  cases finish
  rfl

theorem sameFollowup_hash {holder : JobRow} (same : sameFollowup f row holder = true) :
    holder.workflowIntentHash = row.workflowIntentHash := by
  simp only [sameFollowup, Bool.and_eq_true, decide_eq_true_eq] at same
  exact same.1.1.1.2

/-- What a followup passes before it is inserted. -/
structure FollowupPasses (env : Env) (parentId : Uuid) (parentQueue : String) (spec : Jsonb) (index : ℤ) (db : Db)
    (parent : Job) (f : Followup) (q : Queue) : Prop where
  bounds : 1 ≤ index ∧ index ≤ 20
  object : spec.kind = .object
  known : spec.keys.all (fun k => followupKeys.contains k || k = memberKey) = true
  flagged : ¬badMemberFlag spec = true
  stored : db.jobs.get? parentId = some parent
  own : parent.queue = parentQueue
  parsed : parseFollowup env parentQueue spec index = .ok f
  queue : db.queues.get? f.queue = some q
  joins : checkMemberFollowup f parent.toJobRow db = .ok ()

/-- A member followup whose key has a live holder: it is checked, and answered with the holder if it agrees. -/
theorem enqueueFollowup_held (member : isMember spec = true) (absent : db.jobs.get? db.nextUuid = none)
    (holds : keyHolder db.toCore (followupQueue parentQueue spec) (followupKey parentId spec) = some (id, job)) :
    enqueueFollowup env parentId parentQueue spec index db = .ok r ↔ ∃ parent f q,
      FollowupPasses env parentId parentQueue spec index db parent f q ∧
      insertJob env db.nextUuid (f.row env q parentId parent.toJobRow (some (f.intentHash env q parentId parent.toJobRow)))
        { db with nextUuid := db.nextUuid + 1 } = .ok none ∧
      sameFollowup f (f.row env q parentId parent.toJobRow (some (f.intentHash env q parentId parent.toJobRow)))
        job.toJobRow = true ∧ r = ((id, false), { db with nextUuid := db.nextUuid + 1 }) := by
  have inserts {f : Followup} {q : Queue} {parent : JobRow} (parse : parseFollowup env parentQueue spec index = .ok f) :
      insertFollowup env f q (f.row env q parentId parent (some (f.intentHash env q parentId parent))) 3 db = .ok r ↔
        insertJob env db.nextUuid (f.row env q parentId parent (some (f.intentHash env q parentId parent)))
          { db with nextUuid := db.nextUuid + 1 } = .ok none ∧
        sameFollowup f (f.row env q parentId parent (some (f.intentHash env q parentId parent))) job.toJobRow = true ∧
        r = ((id, false), { db with nextUuid := db.nextUuid + 1 }) := by
    have step := (parseFollowup_eq_ok parse).2.1
    have holds' : keyHolder db.toCore f.queue (followupKey parentId spec) = some (id, job) :=
      parseFollowup_queue parse ▸ holds
    refine insertFollowup_held ?_ rfl absent holds'
    rw [followupKey, ← step]
    rfl
  constructor
  · intro run
    simp only [enqueueFollowup, seq_eq_ok, ensure_eq_ok] at run
    obtain ⟨-, bounds, -, object, -, known, -, flagged, run⟩ := run
    split at run
    · cases run
    · rename_i parent stored
      simp only [seq_eq_ok, ensure_eq_ok] at run
      obtain ⟨-, own, f, parse, run⟩ := run
      split at run
      · cases run
      · rename_i q queue
        rw [if_pos ((parseFollowup_eq_ok parse).2.2.trans member)] at run
        obtain ⟨⟨⟩, joins, run⟩ := seq_eq_ok.mp run
        exact ⟨parent, f, q, ⟨bounds, object, known, flagged, stored, own, parse, queue, joins⟩, (inserts parse).mp run⟩
  · rintro ⟨parent, f, q, passes, rest⟩
    have run := (inserts passes.parsed).mpr rest
    refine seq_eq_ok.mpr ⟨(), ensure_eq_ok.mpr passes.bounds, seq_eq_ok.mpr ⟨(), ensure_eq_ok.mpr passes.object,
      seq_eq_ok.mpr ⟨(), ensure_eq_ok.mpr passes.known, seq_eq_ok.mpr ⟨(), ensure_eq_ok.mpr passes.flagged, ?_⟩⟩⟩⟩
    simp only [passes.stored]
    refine seq_eq_ok.mpr ⟨(), ensure_eq_ok.mpr passes.own, seq_eq_ok.mpr ⟨f, passes.parsed, ?_⟩⟩
    simp only [passes.queue]
    rw [if_pos ((parseFollowup_eq_ok passes.parsed).2.2.trans member)]
    exact seq_eq_ok.mpr ⟨(), passes.joins, run⟩

theorem FollowupPasses.zone (passes : FollowupPasses (env.inZone z₁) parentId parentQueue spec index db parent f q)
    (same : SameInstant z₁ z₂ spec) : FollowupPasses (env.inZone z₂) parentId parentQueue spec index db parent f q :=
  ⟨passes.bounds, passes.object, passes.known, passes.flagged, passes.stored, passes.own,
    parseFollowup_zones same ▸ passes.parsed, passes.queue, passes.joins⟩

/-- A member followup that is recognised under one time zone is recognised under another when its hash is the same. -/
theorem enqueueFollowup_zones (z₂ : TimeZone) (member : isMember spec = true) (same : SameInstant z₁ z₂ spec)
    (absent : db.jobs.get? db.nextUuid = none)
    (holds : keyHolder db.toCore (followupQueue parentQueue spec) (followupKey parentId spec) = some (id, job))
    (accepted : enqueueFollowup (env.inZone z₁) parentId parentQueue spec index db = .ok r) :
    r = ((id, false), { db with nextUuid := db.nextUuid + 1 }) ∧ ∃ parent f q,
      FollowupPasses (env.inZone z₁) parentId parentQueue spec index db parent f q ∧
      (enqueueFollowup (env.inZone z₂) parentId parentQueue spec index db = .ok r ↔
        env.sha256 (f.intent q parentId parent.toJobRow z₁.text).text =
          env.sha256 (f.intent q parentId parent.toJobRow z₂.text).text) := by
  obtain ⟨parent, f, q, passes, insert, agrees, rfl⟩ := (enqueueFollowup_held member absent holds).mp accepted
  refine ⟨rfl, parent, f, q, passes, (enqueueFollowup_held member absent holds).trans ?_⟩
  constructor
  · rintro ⟨parent', f', q', passes', -, agrees', -⟩
    have again := passes.zone same
    cases passes'.stored.symm.trans passes.stored
    cases passes'.parsed.symm.trans again.parsed
    cases passes'.queue.symm.trans passes.queue
    exact Option.some.inj ((sameFollowup_hash agrees).symm.trans (sameFollowup_hash agrees'))
  · intro hash
    have hash : f.intentHash (env.inZone z₁) q parentId parent.toJobRow =
      f.intentHash (env.inZone z₂) q parentId parent.toJobRow := hash
    rw [hash] at insert agrees
    exact ⟨parent, f, q, passes.zone same, insert, agrees, rfl⟩

end Followup

section Actions

variable {env : Env} {a : FireArgs} {e : ErrorArgs} {db db' : Db} {s : Schedule} {stored : StoredAction} {hash : String}
  {id token : Uuid} {answer : ActionResult} {r : ActionResult × Db}

/-- The last action of a schedule. -/
def lastAction (db : Db) (id : Uuid) : Option LastAction := (scheduleById db id).bind (·.lastAction)

theorem lastAction_eq_some {last : LastAction} (here : lastAction db id = some last) :
    ∃ s, scheduleById db id = some s ∧ s.lastAction = some last := Option.bind_eq_some_iff.mp here

theorem replayedAction_last {row : ScheduleRow} (last : row.lastAction = some ⟨token, hash, stored⟩) (own : String) :
    replayedAction id row token own = some (if hash = own then stored.result true id else staleResult id row) := by
  simp [replayedAction, last]

/-- What a replayed call recorded, if it was not refused for its hash. -/
theorem replayedAction_landed {row : ScheduleRow} (replayed : replayedAction id row token hash = some answer)
    (landed : answer.outcome ≠ .stale) : ∃ stored, row.lastAction = some ⟨token, hash, stored⟩ ∧
      answer = stored.result true id := by
  unfold replayedAction at replayed
  split at replayed
  · cases replayed
  · rename_i last given
    split_ifs at replayed with own same
    · cases replayed
      exact ⟨last.result, by rw [given, ← own, ← same], rfl⟩
    · cases replayed
      exact absurd rfl landed

/-- A call whose token is that of the last action is answered from it. -/
theorem fireSchedule_last (found : scheduleById db a.scheduleId = some s)
    (last : s.lastAction = some ⟨a.token, hash, stored⟩) :
    fireSchedule env a db = .ok r ↔ env.attested = true ∧ (a.token ≠ 0 ∧ 0 < a.definitionVersion) ∧
      r = (if hash = a.hash env then stored.result true a.scheduleId else staleResult a.scheduleId s.toScheduleRow,
        { db with nextUuid := db.nextUuid + 1 }) := by
  have found' : scheduleById { db with nextUuid := db.nextUuid + 1 } a.scheduleId = some s := found
  simp only [fireSchedule, newUuid, seq_eq_ok, ensure_eq_ok, found', replayedAction_last last, Except.ok.injEq]
  constructor
  · rintro ⟨_, attested, _, valid, same⟩
    exact ⟨attested, valid, same.symm⟩
  · rintro ⟨attested, valid, same⟩
    exact ⟨(), attested, (), valid, same.symm⟩

theorem scheduleError_last (found : scheduleById db e.scheduleId = some s)
    (last : s.lastAction = some ⟨e.token, hash, stored⟩) (same : hash = e.hash env) :
    scheduleError env e db = .ok r ↔ env.attested = true ∧
      (0 < e.definitionVersion ∧ e.retrySeconds.all (fun n => 1 ≤ n ∧ n ≤ 3600) = true) ∧
      r = ({ stored.result true e.scheduleId with jobsEnqueued := 0 }, db) := by
  simp only [scheduleError, seq_eq_ok, ensure_eq_ok, found, replayedAction_last last, if_pos same, Except.ok.injEq]
  exact ⟨fun ⟨_, attested, _, valid, same⟩ => ⟨attested, valid, same.symm⟩,
    fun ⟨attested, valid, same⟩ => ⟨(), attested, (), valid, same.symm⟩⟩

/-- A fire call that was carried out, or answered from its record, is the last action of the schedule. -/
theorem fireSchedule_records (run : fireSchedule env a db = .ok (answer, db')) (landed : answer.outcome ≠ .stale) :
    ∃ stored, lastAction db' a.scheduleId = some ⟨a.token, a.hash env, stored⟩ ∧
      { answer with replayed := true } = stored.result true a.scheduleId := by
  obtain ⟨rfl, s, found, replayed | ⟨-, -, rfl⟩⟩ | fired := fireSchedule_runs run
  · obtain ⟨stored, last, rfl⟩ := replayedAction_landed replayed landed
    exact ⟨stored, Option.bind_eq_some_iff.mpr ⟨s, found, last⟩, rfl⟩
  · exact absurd rfl landed
  · cases fired with
    | @intro s row claim result mid decision d found current accepted performs later answered shape after =>
      subst after answered
      refine ⟨result, Option.bind_eq_some_iff.mpr ⟨row, Table.get?_put_self _ _ _, ?_⟩, rfl⟩
      rw [shape]
      rfl

theorem scheduleError_records (run : scheduleError env e db = .ok (answer, db')) (landed : answer.outcome ≠ .stale) :
    ∃ stored, lastAction db' e.scheduleId = some ⟨e.token, e.hash env, stored⟩ ∧
      { answer with replayed := true } = { stored.result true e.scheduleId with jobsEnqueued := 0 } := by
  simp only [scheduleError, seq_eq_ok] at run
  obtain ⟨-, -, -, -, run⟩ := run
  split at run
  · cases run
  · rename_i s found
    split at run
    · rename_i replayed
      cases run
      obtain ⟨stored, last, rfl⟩ := replayedAction_landed replayed landed
      exact ⟨stored, Option.bind_eq_some_iff.mpr ⟨s, found, last⟩, rfl⟩
    · split at run
      · cases run
        exact absurd rfl landed
      · rename_i claim current
        simp only [errorUnderClaim, newUuid, seq_eq_ok] at run
        obtain ⟨written, write, finish⟩ := run
        cases finish
        obtain ⟨row, shape, rfl⟩ := writeSchedule_frame write
        refine ⟨_, Option.bind_eq_some_iff.mpr ⟨row, Table.get?_put_self _ _ _, by rw [shape]; rfl⟩, rfl⟩

end Actions

end Taskq
