import Taskq.Lifecycle.Commands

/-! What the admission guard of the queues lets in: the rows that a call inserts passed it, and a row that
is over on a queue with an owner stays over. -/
namespace Taskq
open Relational

variable {env : Env} {P : JobRow → Prop} {db db' db₁ db₂ : Db} {id : Uuid}

/-- Rows stay, and every new row has the shape and passed the guard, on the queues, the schedules and the
rows of the start. -/
structure Vouches (env : Env) (P : JobRow → Prop) (db db' : Db) : Prop where
  queues : db'.queues = db.queues
  scheduling : db'.scheduling = db.scheduling
  kept : ∀ id job, db.jobs.get? id = some job → db'.jobs.get? id = some job
  guarded : ∀ id job, db.jobs.get? id = none → db'.jobs.get? id = some job → P job.toJobRow ∧
    ∃ at' : Db, at'.queues = db.queues ∧ at'.scheduling = db.scheduling ∧
      (∀ id job, db.jobs.get? id = some job → at'.jobs.get? id = some job) ∧
      admissionOwnerGuardInsert env job.toJobRow at' = .ok ()

namespace Vouches

/-- Statements that insert no job. -/
theorem still (jobs : ∀ id, db'.jobs.get? id = db.jobs.get? id) (queues : db'.queues = db.queues)
    (scheduling : db'.scheduling = db.scheduling) : Vouches env P db db' :=
  ⟨queues, scheduling, fun id _ stored => (jobs id).trans stored,
    fun id _ absent here => nomatch absent.symm.trans ((jobs id).symm.trans here)⟩

theorem refl (db : Db) : Vouches env P db db := still (fun _ => rfl) rfl rfl

theorem trans (first : Vouches env P db db₁) (second : Vouches env P db₁ db₂) : Vouches env P db db₂ := by
  refine ⟨second.queues.trans first.queues, second.scheduling.trans first.scheduling,
    fun id job stored => second.kept id job (first.kept id job stored), fun id job absent here => ?_⟩
  cases between : db₁.jobs.get? id with
  | some job' =>
    cases here.symm.trans (second.kept id job' between)
    exact first.guarded id job absent between
  | none =>
    obtain ⟨shape, at', queues, scheduling, rows, guard⟩ := second.guarded id job between here
    exact ⟨shape, at', queues.trans first.queues, scheduling.trans first.scheduling,
      fun id job stored => rows id job (first.kept id job stored), guard⟩

/-- A path that leaves every row of a job alone. -/
theorem of_path {S : Set Label} (path : Path env S db db')
    (quiet : ∀ id, (∀ k, .change id k ∉ S) ∧ .delete id ∉ S ∧ ∀ p, .enter id p ∉ S) : Vouches env P db db' :=
  still (fun id => path.steps.row_eq (quiet id)) (congrArg (·.2.1) path.settings) (congrArg (·.1) path.settings)

theorem insert {row : JobRow} (run : insertJob env id row db = .ok (some db')) (shape : P row) :
    Vouches env P db db' := by
  have guard : admissionOwnerGuardInsert env row db = .ok () := by
    simp only [insertJob, seq_eq_ok] at run
    obtain ⟨⟨⟩, guard, -⟩ := run
    exact guard
  obtain ⟨job, counts, counters, rfl, -, -, fresh, -, -, rfl⟩ := insertJob_frame run
  refine ⟨rfl, rfl, fun other job' stored => ?_, fun other job' absent here => ?_⟩
  · have apart : other ≠ id := fun same => by cases (same ▸ stored).symm.trans fresh
    exact (Table.get?_put_of_ne _ _ apart).trans stored
  · simp only [Table.get?_put] at here
    split_ifs at here with same
    · cases here
      exact ⟨shape, db, rfl, rfl, fun _ _ stored => stored, guard⟩
    · cases absent.symm.trans here

end Vouches

/-- A row of a producer, whose key is not one of the engine's. -/
def producerRow (r : JobRow) : Prop := engineReserved r.idempotencyKey = false

section Enqueue

theorem reservePlace_vouches {m : Membership} (run : reservePlace m db = .ok db') : Vouches env P db db' :=
  .of_path (reservePlace_path env run) (by simp)

theorem Enqueued.vouches {a : EnqueueArgs} {answer : Uuid × Bool} (outcome : Enqueued env a db answer db') :
    Vouches env producerRow db db' := by
  cases outcome with
  | found => exact .still (fun _ => rfl) rfl rfl
  | @created n q m reserved inserted _ _ admissible together resolved taken run finish =>
    obtain ⟨after, still⟩ := finishEnqueue_frame finish
    have minted : Vouches env producerRow db { db with nextUuid := db.nextUuid + n + 1 } :=
      .still (fun _ => rfl) rfl rfl
    have finished : Vouches env producerRow inserted db' := by
      have jobs : db'.jobs = inserted.jobs := (congrArg Core.jobs after).trans rfl
      exact .still (fun id => by rw [jobs]) (congrArg (·.1.2.1) still) (congrArg (·.1.1) still)
    exact minted.trans ((reservePlace_vouches taken).trans ((Vouches.insert run admissible.1).trans finished))

end Enqueue

section Bulk

variable {q : Queue} {workflow : Option (Uuid × Workflow)} {slots slots' : List BulkSlot} {slot : BulkSlot}

/-- The slots without an answer are those of producers. -/
def FromProducers (slots : List BulkSlot) : Prop := ∀ slot ∈ slots, slot.answer = none → Admissible slot.args

theorem FromProducers.tail (producers : FromProducers (slot :: slots)) : FromProducers slots :=
  fun s member => producers s (by simp [member])

theorem insertSlots_vouches (run : insertSlots env q workflow slots db = .ok (slots', db'))
    (producers : FromProducers slots) : Vouches env producerRow db db' := by
  induction slots generalizing db slots' with
  | nil =>
    cases run
    exact .refl _
  | cons slot slots ih =>
    unfold insertSlots at run
    split at run
    · obtain ⟨⟨rest, last⟩, loop, finish⟩ := seq_eq_ok.mp run
      cases finish
      exact ih loop producers.tail
    · rename_i unanswered
      obtain ⟨inserted, insert, run⟩ := seq_eq_ok.mp run
      cases inserted with
      | some inserted =>
        obtain ⟨⟨rest, last⟩, loop, finish⟩ := seq_eq_ok.mp run
        cases finish
        have own := producers slot (by simp) (by simpa using unanswered)
        exact (Vouches.insert insert own.1).trans (ih loop producers.tail)
      | none =>
        obtain ⟨⟨rest, last⟩, loop, finish⟩ := seq_eq_ok.mp run
        cases finish
        exact ih loop producers.tail

theorem convergeSlot_vouches {tries : ℕ} {answer : Uuid × Bool}
    (run : convergeSlot env q workflow slot tries db = .ok (answer, db')) (own : Admissible slot.args) :
    Vouches env producerRow db db' := by
  induction tries with
  | zero => cases run
  | succ tries ih =>
    unfold convergeSlot at run
    split at run
    · simp only [seq_eq_ok] at run
      obtain ⟨-, -, finish⟩ := run
      cases finish
      exact .refl _
    · split at run
      · simp only [seq_eq_ok] at run
        obtain ⟨-, -, finish⟩ := run
        cases finish
        exact .refl _
      · obtain ⟨inserted, insert, run⟩ := seq_eq_ok.mp run
        cases inserted with
        | some inserted =>
          cases run
          exact .insert insert own.1
        | none => exact ih run

theorem convergeSlots_vouches (run : convergeSlots env q workflow slots db = .ok (slots', db'))
    (producers : FromProducers slots) : Vouches env producerRow db db' := by
  induction slots generalizing db slots' with
  | nil =>
    cases run
    exact .refl _
  | cons slot slots ih =>
    simp only [convergeSlots, seq_eq_ok] at run
    obtain ⟨⟨answered, mid⟩, first, ⟨rest, last⟩, loop, finish⟩ := run
    cases finish
    have own : Vouches env producerRow db mid := by
      unfold answerSlot at first
      split at first
      · cases first
        exact .refl _
      · rename_i unanswered
        obtain ⟨⟨answer, converged⟩, converge, done⟩ := seq_eq_ok.mp first
        cases done
        exact convergeSlot_vouches converge (producers slot (by simp) (by simpa using unanswered))
    exact own.trans (ih loop producers.tail)

theorem enqueueMany_vouches {queue : String} {jobs : Option Jsonb} {answer : List (ℤ × Uuid × Bool)}
    (run : enqueueMany env queue jobs db = .ok (answer, db')) : Vouches env producerRow db db' := by
  simp only [enqueueMany, seq_eq_ok] at run
  obtain ⟨-, -, -, -, run⟩ := run
  split at run
  · cases run
  · simp only [seq_eq_ok] at run
    obtain ⟨⟨slots, parsedDb⟩, parse, ⟨workflow, resolved⟩, resolve, -, -, reserved, reserve,
      ⟨inserted, insertedDb⟩, insert, ⟨converged, convergedDb⟩, converge, finish⟩ := run
    cases finish
    obtain ⟨frame, -, w, -, parsed⟩ := parseSpecs_eq_ok parse
    have places : Path env {l | ∃ w, l = .reserve w} parsedDb reserved := reserveSlots_path reserve
    have ready := (resolveSlots_ready resolve parsed).after (places.mono fun l h => .inr (.inl h))
    obtain ⟨-, left⟩ := insertSlots_path insert ready
    have minted : Vouches env producerRow db parsedDb := frame ▸ .still (fun _ => rfl) rfl rfl
    have reserves : Vouches env producerRow parsedDb reserved := .of_path places (by simp)
    have first := insertSlots_vouches insert fun slot member open' => (ready slot member open').admissible
    have second := convergeSlots_vouches converge fun slot member open' => (left slot member open').admissible
    refine minted.trans (reserves.trans (first.trans (second.trans ?_)))
    exact .of_path (S := ∅) ((enqueuedEvents_path env _ _).trans (notifyCreated_path env queue _ _ _)) (by simp)

end Bulk

section Followups

variable {parentId : Uuid} {parent : Job}

/-- A row that continues the parent; a followup has no time to live. -/
def childRow (parentId : Uuid) (r : JobRow) : Prop := r.parentJobId = some parentId ∧ r.expiresAt = none

theorem enqueueFollowups_vouches {queue : String} {specs : List Jsonb} {index : ℤ}
    (run : enqueueFollowups env parentId queue specs index db = .ok db')
    (stored : db.jobs.get? parentId = some parent) : Vouches env (childRow parentId) db db' := by
  induction specs generalizing db index with
  | nil =>
    cases run
    exact .refl _
  | cons spec specs ih =>
    simp only [enqueueFollowups, seq_eq_ok] at run
    obtain ⟨⟨answer, inserted⟩, first, rest⟩ := run
    obtain ⟨row, shape, insert⟩ := enqueueFollowup_inserted first stored
    have own : Vouches env (childRow parentId) db inserted := by
      cases insert with
      | held => exact .still (fun _ => rfl) rfl rfl
      | @created n entered _ events notices run after =>
        subst after
        obtain ⟨f, q, -, -, -, rfl⟩ := shape.parsed
        have minted : Vouches env (childRow parentId) db { db with nextUuid := db.nextUuid + n + 1 } :=
          .still (fun _ => rfl) rfl rfl
        have entry : Vouches env (childRow parentId) _ entered := .insert run ⟨rfl, rfl⟩
        exact minted.trans (entry.trans (.still (fun _ => rfl) rfl rfl))
    exact own.trans (ih rest (own.kept _ _ stored))

end Followups

end Taskq
