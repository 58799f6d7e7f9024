import Taskq.Lifecycle.HousekeepingPaths
import Taskq.Lifecycle.WorkflowPaths

/-! The paths of a completion: the job succeeds, its dependents are promoted, and its followups come
in as new jobs. -/
namespace Taskq
open Relational

variable {env : Env} {S : Set Label} {db db' : Db} {parentId : Uuid} {parent : Job}

section Followups

/-- What the insertion of a followup leaves behind: the new row under a fresh id, or nothing when a
live job already holds the key. -/
inductive FollowupInserted (env : Env) (row : JobRow) (db : Db) : Uuid × Bool → Db → Prop
  | created {n : ℕ} {inserted db' : Db} {events : List Event} {notices : List (String × String)}
      (run : insertJob env (db.nextUuid + n) row { db with nextUuid := db.nextUuid + n + 1 } =
        .ok (some inserted)) (after : db' = { inserted with events := events, notices := notices }) :
      FollowupInserted env row db (db.nextUuid + n, true) db'
  | held {n : ℕ} {id : Uuid} {job : Job}
      (holder : keyHolder db.toCore row.queue (row.idempotencyKey.getD "") = some (id, job)) :
      FollowupInserted env row db (id, false) { db with nextUuid := db.nextUuid + n }

theorem insertFollowup_inserted {f : Followup} {q : Queue} {row : JobRow} {tries : ℕ}
    {answer : Uuid × Bool} (run : insertFollowup env f q row tries db = .ok (answer, db')) :
    FollowupInserted env row db answer db' := by
  induction tries generalizing db with
  | zero => cases run
  | succ tries ih =>
    simp only [insertFollowup, newUuid, seq_eq_ok] at run
    obtain ⟨inserted, insert, run⟩ := run
    cases inserted with
    | some inserted =>
      obtain ⟨evented, event, finish⟩ := seq_eq_ok.mp run
      cases finish
      rw [emitEvent_quiet (by decide) (by decide)] at event
      cases event
      split_ifs
      · exact .created (n := 0) insert rfl
      · exact .created (n := 0) insert rfl
    | none =>
      simp only at run
      split at run
      · rename_i id job holder
        simp only [seq_eq_ok] at run
        obtain ⟨-, -, finish⟩ := run
        cases finish
        exact .held (n := 1) holder
      · have rest := ih run
        cases rest with
        | @created n inserted _ events notices again after =>
          have shift : db.nextUuid + 1 + n = db.nextUuid + (n + 1) := by
            rw [Nat.add_assoc, Nat.add_comm 1 n]
          simp only [shift] at again ⊢
          exact .created again after
        | @held n id job holder =>
          have shift : db.nextUuid + 1 + n = db.nextUuid + (n + 1) := by
            rw [Nat.add_assoc, Nat.add_comm 1 n]
          simp only [shift]
          exact .held holder

/-- A spec that names itself a member asks for one. -/
def isMember (spec : Jsonb) : Bool := spec.hasKey memberKey

theorem parseFollowup_eq_ok {queue : String} {spec : Jsonb} {index : ℤ} {f : Followup}
    (run : parseFollowup env queue spec index = .ok f) :
    isStepKey f.step = true ∧ f.step = (spec.fieldText? "step").getD "" ∧
      f.member = isMember spec := by
  simp only [parseFollowup, seq_eq_ok, ensure_eq_ok] at run
  obtain ⟨-, step, -, -, -, -, -, -, _, -, _, -, _, -, _, -, -, -, finish⟩ := run
  cases finish
  exact ⟨step, rfl, rfl⟩

/-- The row that `_enqueue_followup` inserts for a spec of this parent. -/
structure FollowupRow (env : Env) (parentId : Uuid) (parent : JobRow) (spec : Jsonb) (index : ℤ)
    (db : Db) (row : JobRow) : Prop where
  parsed : ∃ f q, parseFollowup env parent.queue spec index = .ok f ∧
    db.queues.get? f.queue = some q ∧
    (f.member = true → checkMemberFollowup f parent db = .ok ()) ∧
    row = f.row env q parentId parent
      (if f.member then some (f.intentHash env q parentId parent) else none)

theorem enqueueFollowup_inserted {queue : String} {spec : Jsonb} {index : ℤ} {answer : Uuid × Bool}
    (run : enqueueFollowup env parentId queue spec index db = .ok (answer, db'))
    (stored : db.jobs.get? parentId = some parent) :
    ∃ row, FollowupRow env parentId parent.toJobRow spec index db row ∧
      FollowupInserted env row db answer db' := by
  simp only [enqueueFollowup, seq_eq_ok] at run
  obtain ⟨-, -, -, -, -, -, -, -, run⟩ := run
  simp only [stored, seq_eq_ok, ensure_eq_ok] at run
  obtain ⟨-, rfl, f, parse, run⟩ := run
  split at run
  · cases run
  · rename_i q known
    split at run
    · rename_i member
      simp only [seq_eq_ok] at run
      obtain ⟨⟨⟩, check, insert⟩ := run
      exact ⟨_, ⟨f, q, parse, known, fun _ => check, by rw [if_pos member]⟩,
        insertFollowup_inserted insert⟩
    · rename_i member
      exact ⟨_, ⟨f, q, parse, known, fun h => absurd h member, by rw [if_neg member]⟩,
        insertFollowup_inserted run⟩

/-- The labels of the followups of one parent, admitted under ids from `next` on. -/
def followups (parent next : Uuid) : Set Label :=
  {l | l = .mint ∨ ∃ id, next ≤ id ∧ l = .enter id (some parent)}

/-- The parent has succeeded, and its workflow is still open if followups are to join it. -/
structure Continues (db : Db) (parentId : Uuid) (parent : Job) (members : Prop) : Prop where
  stored : db.jobs.get? parentId = some parent
  succeeded : parent.status = .succeeded
  going : members → ∀ w, parent.workflowId = some w →
    ∃ r, db.workflows.get? w = some r ∧ r.status = .running

theorem FollowupRow.entry {spec : Jsonb} {index : ℤ} {row : JobRow} {members : Prop}
    (shape : FollowupRow env parentId parent.toJobRow spec index db row)
    (continues : Continues db parentId parent members) (joins : isMember spec = true → members) :
    Entry db.toCore row (some parentId) := by
  obtain ⟨f, q, parse, -, -, rfl⟩ := shape.parsed
  obtain ⟨isStep, -, member⟩ := parseFollowup_eq_ok parse
  refine .continuation continues.stored continues.succeeded rfl isStep rfl fun w h => ?_
  simp only [Followup.row] at h ⊢
  split_ifs at h ⊢ with joined
  exact ⟨h, rfl, continues.going (joins (member ▸ joined)) w h⟩

theorem FollowupRow.born {spec : Jsonb} {index : ℤ} {row : JobRow}
    (shape : FollowupRow env parentId parent.toJobRow spec index db row) :
    row.life = .fresh .queued 0 := by
  obtain ⟨f, q, -, -, -, rfl⟩ := shape.parsed
  rfl

theorem FollowupInserted.path {row : JobRow} {answer : Uuid × Bool} {next : Uuid}
    (inserted : FollowupInserted env row db answer db') (below : next ≤ db.nextUuid)
    (born : row.life = .fresh .queued 0) (entry : Entry db.toCore row (some parentId)) :
    Path env (followups parentId next) db db' := by
  cases inserted with
  | @created n inserted _ events notices run after =>
    subst after
    refine (Path.mints (.inl rfl) db (n + 1)).trans ?_
    have alone : row.life = .fresh (if ([] : List Uuid) = [] then .queued else .blocked) 0 := by
      simpa using born
    refine .enter run (Nat.lt_succ_self _) alone ?_ List.nodup_nil (by simp) (by simp) rfl
      (.inr ⟨_, below.trans (Nat.le_add_right _ _), rfl⟩)
    cases entry with
    | continuation stored succeeded child isStep key workflow =>
      exact .continuation stored succeeded child isStep key workflow
  | held => exact .mints (.inl rfl) db _

/-- Followups leave the rows that exist and the workflows alone. -/
theorem followups_keep {next : Uuid} {c d : Core} (steps : Steps (followups parentId next) c d) :
    (∀ id job, c.jobs.get? id = some job → d.jobs.get? id = some job) ∧
      ∀ w, d.workflows.get? w = c.workflows.get? w := by
  refine ⟨fun id job stored => ?_, fun w => steps.workflow_eq w (by simp [followups])⟩
  refine steps.row (R := fun r s => ∀ job, r = some job → s = some job) id (fun _ _ h => h)
    (fun first second job h => second job (first job h)) (fun {l r s} member move job present => ?_)
    job stored
  cases move with
  | same => exact present
  | change label => obtain rfl | ⟨_, -, rfl⟩ := member <;> cases label
  | delete label => obtain rfl | ⟨_, -, rfl⟩ := member <;> cases label
  | enter => cases present

theorem Continues.after {members : Prop} {next : Uuid} (continues : Continues db parentId parent members)
    (path : Path env (followups parentId next) db db') : Continues db' parentId parent members := by
  obtain ⟨rows, workflows⟩ := followups_keep path.steps
  refine ⟨rows _ _ continues.stored, continues.succeeded, fun members w h => ?_⟩
  rw [workflows]
  exact continues.going members w h

theorem enqueueFollowups_path {queue : String} {specs : List Jsonb} {index : ℤ} {members : Prop}
    {next : Uuid} (run : enqueueFollowups env parentId queue specs index db = .ok db')
    (below : next ≤ db.nextUuid) (continues : Continues db parentId parent members)
    (joins : ∀ spec ∈ specs, isMember spec = true → members) :
    Path env (followups parentId next) db db' := by
  induction specs generalizing db index with
  | nil =>
    cases run
    exact .refl _
  | cons spec specs ih =>
    simp only [enqueueFollowups, seq_eq_ok] at run
    obtain ⟨⟨answer, inserted⟩, first, rest⟩ := run
    obtain ⟨row, shape, insert⟩ := enqueueFollowup_inserted first continues.stored
    have path : Path env (followups parentId next) db inserted :=
      insert.path below shape.born (shape.entry continues (joins spec (by simp)))
    exact path.trans (ih rest (below.trans path.steps.nextUuid_le) (continues.after path)
      fun other member => joins other (by simp [member]))

end Followups

section Complete

variable {jobId attemptId : Uuid} {worker policyHash : Option String}
  {result stats followups' : Option Jsonb} {job : Job} {answer : SettleResult} {specs : List Jsonb}

/-- Promotions leave a row that is not blocked alone. -/
theorem promotions_keep {c d : Core} (steps : Steps promotions c d) {id : Uuid}
    (stored : c.jobs.get? id = some job) (released : job.status ≠ .blocked) :
    d.jobs.get? id = some job := by
  refine steps.row (R := fun r s => ∀ job, r = some job → job.status ≠ .blocked → s = some job) id
    (fun _ _ h _ => h) (fun first second job h k => second job (first job h k) k)
    (fun {l r s} member move job present released => ?_) job stored released
  obtain ⟨child, rfl | rfl⟩ := member
  · cases move with
    | same => exact present
    | change label _ _ step =>
      cases present
      obtain ⟨rfl, rfl⟩ := Label.change.inj label
      exact absurd step.promote_inv released
    | delete label => cases label
    | enter => cases present
  · cases move with
    | same => exact present
    | change label => cases label
    | delete label => cases label
    | enter => cases present

/-- The settlement of a completion and the promotion of its dependents. -/
theorem settleSucceeded_parts
    (run : settleSucceeded env jobId attemptId worker result stats specs job db = .ok (answer, db'))
    (held : runningJob db.toCore jobId attemptId = some job) :
    ∃ mid settled, Path env (changesOf jobId [.succeed] ∪ promotions) db mid ∧
      enqueueFollowups env jobId job.queue specs 1 mid = .ok db' ∧
      answer = ⟨.ok, some .succeeded, none⟩ ∧ mid.jobs.get? jobId = some settled ∧
      settled.status = .succeeded ∧ settled.identity = job.identity := by
  obtain ⟨stored, running, current⟩ := runningJob_eq_some.mp held
  simp only [settleSucceeded, seq_eq_ok] at run
  obtain ⟨written, write, promoted, promote, evented, event, followed, follow, finish⟩ := run
  cases finish
  rw [emitEvent_quiet (by decide) (by decide)] at event
  cases event
  have attempts := writeJob_attempts write
  have release : Path env promotions _ promoted :=
    Moves.forEach Path.refl Path.trans (fun _ _ _ _ one => promoteChild_path one) _ _ promote
  have settle : Path env (changesOf jobId [.succeed] ∪ promotions) db promoted := by
    refine Path.trans (.change (k := .succeed) write rfl rfl stored rfl (.succeed job.life running)
      (by simp) ⟨attemptId, current, ?_⟩ (closeAttempt_toCore _ _ _) (closeAttempt_surroundings _ _ _)
      (.inl (by simp [changesOf]))) (release.mono Set.subset_union_right)
    exact attempts ▸ closeAttempt_closes (fun _ => by rfl) written
  obtain ⟨row, _, _, _, _, same, -, -, rfl⟩ := writeJob_frame write
  refine ⟨_, row, settle.trans (insertEvent_path ..), follow, rfl, ?_, by rw [same], by rw [same]; rfl⟩
  refine promotions_keep release.steps ?_ (by rw [same]; simp)
  rw [closeAttempt_toCore]
  exact Table.get?_put_self _ _ _

def stepOf (spec : Jsonb) : String := (spec.fieldText? "step").getD ""

/-- A completion that settles its job: places for the member followups, the settlement with its
promotions, then the followups one after the other. -/
inductive CompletionRun (env : Env) (jobId : Uuid) (job : Job) (specs : List Jsonb) (db db' : Db) : Prop
  | intro {reserved mid : Db} {settled : Job}
      (taken : reserveFollowups job.toJobRow (specs.countP isMember) db = .ok reserved)
      (settle : Path env (changesOf jobId [.succeed] ∪ promotions) reserved mid)
      (follow : enqueueFollowups env jobId job.queue specs 1 mid = .ok db')
      (kept : settled.identity = job.identity)
      (continues : Continues mid jobId settled (∃ spec ∈ specs, isMember spec = true))
      (distinct : (specs.map stepOf).Nodup)

theorem reserveFollowups_path (env : Env) {n : ℤ} {reserved : Db}
    (run : reserveFollowups job.toJobRow n db = .ok reserved) :
    Path env {l | ∃ w, l = .reserve w} db reserved := by
  unfold reserveFollowups at run
  split at run
  · rename_i w _
    split at run
    · refine (reserveWorkflowMembers_path run).mono ?_
      rintro l rfl
      exact ⟨w, rfl⟩
    · cases run
      exact .refl _
  · cases run
    exact .refl _

/-- The labels of a completion. -/
def completions (job next : Uuid) : Set Label :=
  {l | ∃ w, l = .reserve w} ∪ (changesOf job [.succeed] ∪ promotions) ∪ followups job next

theorem CompletionRun.path (run : CompletionRun env jobId job specs db db') :
    Path env (completions jobId db.nextUuid) db db' := by
  obtain ⟨taken, settle, follow, kept, continues, -⟩ := run
  have reserve := reserveFollowups_path env taken
  have first : Path env (completions jobId db.nextUuid) db _ :=
    (reserve.mono fun _ h => .inl (.inl h)).trans (settle.mono fun _ h => .inl (.inr h))
  exact first.trans ((enqueueFollowups_path follow first.steps.nextUuid_le continues
    fun spec member joins => ⟨spec, member, joins⟩).mono fun _ h => .inr h)

theorem checkFollowupShape_eq_ok {keys steps steps' : List String} {spec : Jsonb} {index : ℤ}
    (run : checkFollowupShape keys spec index steps = .ok steps') :
    (∀ k ∈ spec.keys, k ∈ keys) ∧ stepOf spec ∉ steps ∧ steps' = steps ++ [stepOf spec] := by
  simp only [checkFollowupShape, seq_eq_ok, ensure_eq_ok] at run
  obtain ⟨-, ⟨-, known⟩, -, -, -, -, -, fresh, finish⟩ := run
  cases finish
  exact ⟨by simpa using known, fresh, rfl⟩

theorem isMember_mem {spec : Jsonb} (member : isMember spec = true) : memberKey ∈ spec.keys := by
  simp only [isMember, Jsonb.hasKey, List.any_eq_true, decide_eq_true_eq] at member
  obtain ⟨f, present, same⟩ := member
  exact List.mem_map.mpr ⟨f, present, same⟩

/-- The checked steps are new and distinct. -/
def FreshSteps (steps : List String) (specs : List Jsonb) : Prop :=
  (specs.map stepOf).Nodup ∧ ∀ spec ∈ specs, stepOf spec ∉ steps

theorem FreshSteps.cons {steps : List String} {spec : Jsonb} (fresh : stepOf spec ∉ steps)
    (rest : FreshSteps (steps ++ [stepOf spec]) specs) : FreshSteps steps (spec :: specs) := by
  obtain ⟨distinct, apart⟩ := rest
  refine ⟨List.nodup_cons.mpr ⟨fun member => ?_, distinct⟩, fun other member => ?_⟩
  · obtain ⟨other, present, same⟩ := List.mem_map.mp member
    exact apart other present (by simp [same])
  · obtain rfl | present := List.mem_cons.mp member
    · exact fresh
    · exact fun h => apart other present (by simp [h])

theorem checkFollowups_eq_ok {index : ℤ} {steps : List String}
    (run : checkFollowups followupKeys specs index steps = .ok ()) :
    FreshSteps steps specs ∧ ∀ spec ∈ specs, isMember spec = false := by
  induction specs generalizing index steps with
  | nil => exact ⟨⟨List.nodup_nil, by simp⟩, by simp⟩
  | cons spec specs ih =>
    simp only [checkFollowups, seq_eq_ok] at run
    obtain ⟨_, shape, rest⟩ := run
    obtain ⟨known, fresh, rfl⟩ := checkFollowupShape_eq_ok shape
    obtain ⟨distinct, plain⟩ := ih rest
    refine ⟨distinct.cons fresh, fun other member => ?_⟩
    obtain rfl | present := List.mem_cons.mp member
    · refine eq_false_of_ne_true fun joins => absurd (known _ (isMember_mem joins)) ?_
      decide
    · exact plain other present

theorem checkPolicyFollowups_eq_ok {row : JobRow} {declared : List String} {index n : ℤ}
    {steps : List String} (run : checkPolicyFollowups row declared specs index steps = .ok n) :
    FreshSteps steps specs ∧ n = specs.countP isMember ∧
      ∀ spec ∈ specs, isMember spec = true → row.continuationPolicyHash.isSome = true := by
  induction specs generalizing index steps n with
  | nil =>
    cases run
    exact ⟨⟨List.nodup_nil, by simp⟩, rfl, by simp⟩
  | cons spec specs ih =>
    simp only [checkPolicyFollowups, seq_eq_ok] at run
    obtain ⟨_, shape, run⟩ := run
    obtain ⟨-, fresh, rfl⟩ := checkFollowupShape_eq_ok shape
    split at run
    · rename_i joins
      simp only [seq_eq_ok, ensure_eq_ok] at run
      obtain ⟨-, ⟨-, policy⟩, -, -, members, rest, finish⟩ := run
      cases finish
      obtain ⟨distinct, rfl, -⟩ := ih rest
      refine ⟨distinct.cons fresh, ?_, fun _ _ _ => policy⟩
      simp [show isMember spec = true from joins]
    · rename_i plain
      obtain ⟨distinct, rfl, policy⟩ := ih run
      refine ⟨distinct.cons fresh, ?_, fun other member joins => ?_⟩
      · simp [show isMember spec = false from eq_false_of_ne_true plain]
      · obtain rfl | present := List.mem_cons.mp member
        · exact absurd joins plain
        · exact policy other present joins

theorem runningJob_eq_none {core : Core} :
    runningJob core jobId attemptId = none ↔ ∀ job, core.jobs.get? jobId = some job →
      job.status ≠ .running ∨ job.currentAttemptId ≠ some attemptId := by
  simp only [runningJob, Option.filter_eq_none_iff, Bool.and_eq_true, decide_eq_true_eq, not_and_or,
    ne_eq]

/-- What a completion does: it answers from the ledger and changes nothing, or it settles. -/
def Completes (env : Env) (jobId attemptId : Uuid) (specs : List Jsonb) (db db' : Db)
    (answer : SettleResult) : Prop :=
  (runningJob db.toCore jobId attemptId = none ∧ db' = db ∧
      (answer = ⟨.lost, none, none⟩ ∨ answer = replayAnswer db.toCore jobId attemptId .succeeded)) ∨
    ∃ job, runningJob db.toCore jobId attemptId = some job ∧
      CompletionRun env jobId job specs db db' ∧ answer = ⟨.ok, some .succeeded, none⟩

theorem completeJob_completes
    (run : completeJob env jobId attemptId worker result stats followups' db = .ok (answer, db')) :
    Completes env jobId attemptId (followupSpecs followups') db db' answer := by
  simp only [completeJob, seq_eq_ok] at run
  obtain ⟨-, -, run⟩ := run
  split at run
  · rename_i missing
    cases run
    exact .inl ⟨runningJob_eq_none.mpr fun job stored => by simp [missing] at stored, rfl, .inl rfl⟩
  · rename_i job stored
    split at run
    · rename_i other
      cases run
      refine .inl ⟨runningJob_eq_none.mpr fun job' stored' => ?_, rfl, .inr rfl⟩
      cases stored.symm.trans stored'
      exact other
    · rename_i own
      simp only [not_or, not_not] at own
      have held := runningJob_eq_some.mpr ⟨stored, own.1, own.2⟩
      simp only [seq_eq_ok, ensure_eq_ok] at run
      obtain ⟨-, -, -, -, ⟨⟩, checked, settle⟩ := run
      obtain ⟨⟨distinct, -⟩, plain⟩ := checkFollowups_eq_ok checked
      have none' : (followupSpecs followups').countP isMember = 0 :=
        List.countP_eq_zero.mpr fun spec member => by simp [plain spec member]
      obtain ⟨mid, settled, path, follow, rfl, stored', succeeded, kept⟩ :=
        settleSucceeded_parts settle held
      refine .inr ⟨job, held, .intro ?_ path follow kept
        ⟨stored', succeeded, ?_⟩ distinct, rfl⟩
      · unfold reserveFollowups
        rw [none']
        split <;> rfl
      · rintro ⟨spec, member, joins⟩
        simp [plain spec member] at joins

/-- The presented policy is that of a running workflow. -/
theorem checkPolicyWitness_eq_ok {row : JobRow} {declared : List String}
    (run : checkPolicyWitness row policyHash db = .ok declared)
    (policy : row.continuationPolicyHash.isSome = true) {w : Uuid} (member : row.workflowId = some w) :
    ∃ r, db.workflows.get? w = some r ∧ r.status = .running := by
  unfold checkPolicyWitness at run
  split at run
  · simp_all
  · cases run
  · cases run
  · simp only [seq_eq_ok] at run
    obtain ⟨-, -, run⟩ := run
    split at run
    · cases run
    · rename_i r found
      simp only [seq_eq_ok, ensure_eq_ok] at run
      obtain ⟨-, -, -, running, -⟩ := run
      simp only [member, Option.bind_some] at found
      exact ⟨r, found, running⟩

theorem completeJobWithPolicy_completes
    (run : completeJobWithPolicy env jobId attemptId worker result stats followups' policyHash db =
      .ok (answer, db')) :
    Completes env jobId attemptId (followupSpecs followups') db db' answer := by
  simp only [completeJobWithPolicy, seq_eq_ok] at run
  obtain ⟨-, -, run⟩ := run
  split at run
  · rename_i missing
    cases run
    exact .inl ⟨runningJob_eq_none.mpr fun job stored => by simp [missing] at stored, rfl, .inl rfl⟩
  · rename_i job stored
    split at run
    · rename_i other
      cases run
      refine .inl ⟨runningJob_eq_none.mpr fun job' stored' => ?_, rfl, .inr rfl⟩
      cases stored.symm.trans stored'
      exact other
    · rename_i own
      simp only [not_or, not_not] at own
      simp only [seq_eq_ok] at run
      obtain ⟨declared, witness, -, -, members, checked, reserved, taken, settle⟩ := run
      obtain ⟨⟨distinct, -⟩, rfl, policy⟩ := checkPolicyFollowups_eq_ok checked
      have reserve := reserveFollowups_path env taken
      have held : runningJob reserved.toCore jobId attemptId = some job := by
        refine runningJob_eq_some.mpr ⟨?_, own.1, own.2⟩
        rw [reserve.steps.row_eq (by simp)]
        exact stored
      obtain ⟨mid, settled, path, follow, rfl, stored', succeeded, kept⟩ :=
        settleSucceeded_parts settle held
      refine .inr ⟨job, runningJob_eq_some.mpr ⟨stored, own.1, own.2⟩,
        .intro taken path follow kept ⟨stored', succeeded, ?_⟩ distinct, rfl⟩
      rintro ⟨spec, member, joins⟩ w belongs
      have same : settled.workflowId = job.workflowId := congrArg Identity.workflowId kept
      obtain ⟨r, found, going⟩ :=
        checkPolicyWitness_eq_ok witness (policy spec member joins) (same ▸ belongs)
      refine ⟨r, ?_, going⟩
      rw [path.steps.workflow_eq w (by simp [changesOf, promotions]),
        reserve.steps.workflow_eq w (by simp)]
      exact found

end Complete

end Taskq
