import Taskq.Lifecycle.AdmissionPaths

/-! The paths of bulk admission: the slots are validated, answered from existing steps, and the rest
of them inserted one after the other. -/
namespace Taskq
open Relational

variable {env : Env} {db db' : Db} {q : Queue} {queue : String} {next : Uuid}
  {workflow : Option (Uuid × Workflow)} {slot : BulkSlot} {slots slots' : List BulkSlot}

section Specs

theorem boundedText_eq_ok {spec : Jsonb} {key : String} {n : ℕ} {value : Option String}
    (run : boundedText spec key n = .ok value) : value = spec.fieldText? key := by
  simp only [boundedText, seq_eq_ok] at run
  obtain ⟨-, -, finish⟩ := run
  exact (Except.ok.inj finish).symm

theorem castText_isNone {α : Type} {cast : String → Option α} {spec : Jsonb} {key : String}
    {value : Option α} (run : castText cast spec key = .ok value) :
    value.isNone = (spec.fieldText? key).isNone := by
  unfold castText at run
  split at run
  · rename_i missing
    cases run
    rw [missing]
    rfl
  · rename_i text present
    split at run
    · cases run
      rw [present]
      rfl
    · cases run

theorem parseSpec_eq_ok {spec : Jsonb} {args : EnqueueArgs}
    (run : parseSpec env queue q spec = .ok args) :
    Admissible args ∧ args.queue = queue ∧ args.workflowId.isNone = args.stepKey.isNone := by
  simp only [parseSpec, seq_eq_ok, ensure_eq_ok] at run
  obtain ⟨-, -, -, -, -, -, -, -, -, -, -, -, priority, -, lease, -, attempts, -, -, -, base, -, cap, -, -,
    -, key, -, -, reserved, concurrency, -, affinity, -, ttl, -, flow, -, -, together, workflowId, cast,
    -, -, -, step, scheduled, -, parent, -, finish⟩ := run
  cases finish
  exact ⟨⟨eq_false_of_ne_true reserved, step⟩, rfl, (castText_isNone cast).trans together⟩

/-- A parsed slot, with an id that the call has just taken. -/
structure Parsed (queue : String) (w : Option Uuid) (db db' : Db) (slot : BulkSlot) : Prop where
  admissible : Admissible slot.args
  queue : slot.args.queue = queue
  together : slot.args.workflowId.isNone = slot.args.stepKey.isNone
  workflow : slot.args.workflowId = w
  minted : db.nextUuid ≤ slot.id ∧ slot.id < db'.nextUuid
  open' : slot.answer = none

theorem parseSpecs_eq_ok {specs : List Jsonb} {index : ℤ} {mode : Option (Option Uuid)}
    (run : parseSpecs env queue q specs index mode db = .ok (slots, db')) :
    db' = { db with nextUuid := db.nextUuid + specs.length } ∧ (slots.map (·.id)).Nodup ∧
      ∃ w, (∀ v, mode = some v → specs ≠ [] → w = v) ∧
        ∀ slot ∈ slots, Parsed queue w db db' slot := by
  induction specs generalizing index mode db slots with
  | nil =>
    cases run
    exact ⟨rfl, List.nodup_nil, none, by simp, by simp⟩
  | cons spec specs ih =>
    simp only [parseSpecs, newUuid, seq_eq_ok, ensure_eq_ok, mapError_eq_ok] at run
    obtain ⟨-, -, args, parse, -, -, -, uniform, ⟨rest, last⟩, loop, finish⟩ := run
    cases finish
    obtain ⟨rfl, distinct, w, carried, parsed⟩ := ih loop
    obtain ⟨admissible, known, together⟩ := parseSpec_eq_ok parse
    have length : db.nextUuid + 1 + specs.length = db.nextUuid + (spec :: specs).length := by
      rw [List.length_cons, Nat.add_assoc, Nat.add_comm 1]
    have all : ∀ slot ∈ rest, slot.args.workflowId = args.workflowId ∧
        Parsed queue args.workflowId { db with nextUuid := db.nextUuid + 1 }
          { db with nextUuid := db.nextUuid + 1 + specs.length } slot := by
      intro slot member
      have specs' : specs ≠ [] := by
        rintro rfl
        cases loop
        cases member
      obtain rfl := carried args.workflowId rfl specs'
      exact ⟨(parsed slot member).workflow, parsed slot member⟩
    refine ⟨by rw [← length], List.nodup_cons.mpr ⟨fun member => ?_, distinct⟩, args.workflowId, ?_, ?_⟩
    · obtain ⟨slot, present, same⟩ := List.mem_map.mp member
      have below := (all slot present).2.minted.1
      rw [same] at below
      exact absurd below (Nat.not_succ_le_self _)
    · rintro v rfl -
      have h : v = args.workflowId := by simpa using uniform
      exact h.symm
    · intro slot member
      obtain rfl | present := List.mem_cons.mp member
      · refine ⟨admissible, known, together, rfl, ⟨le_rfl, ?_⟩, rfl⟩
        exact Nat.lt_of_lt_of_le (Nat.lt_succ_self _) (Nat.le_add_right _ _)
      · obtain ⟨-, h⟩ := all slot present
        exact ⟨h.admissible, h.queue, h.together, h.workflow,
          ⟨(Nat.le_succ _).trans h.minted.1, h.minted.2⟩, h.open'⟩

end Specs

section Slots

/-- What every insert of an open slot does, the set-based insert does; the slots that are open afterwards were open. -/
theorem insertSlots_rule {R : Db → Db → Prop} (run : insertSlots env q workflow slots db = .ok (slots', db'))
    (refl : ∀ d, R d d) (trans : ∀ {d e f}, R d e → R e f → R d f)
    (insert : ∀ slot ∈ slots, slot.answer = none → ∀ {d e}, insertJob env slot.id (slot.row env q workflow) d =
      .ok (some e) → R d e) : R db db' ∧ ∀ slot ∈ slots', slot.answer = none → slot ∈ slots := by
  induction slots generalizing db slots' with
  | nil =>
    cases run
    exact ⟨refl _, fun _ member _ => member⟩
  | cons slot slots ih =>
    have later : ∀ s ∈ slots, s.answer = none → ∀ {d e}, insertJob env s.id (s.row env q workflow) d =
        .ok (some e) → R d e := fun s member => insert s (by simp [member])
    have still {rest : List BulkSlot} {answered : BulkSlot} (old : answered.answer = none → answered = slot)
        (known : ∀ s ∈ rest, s.answer = none → s ∈ slots) :
        ∀ s ∈ answered :: rest, s.answer = none → s ∈ slot :: slots := by
      intro s member unanswered
      obtain rfl | present := List.mem_cons.mp member
      · simp [old unanswered]
      · simp [known s present unanswered]
    unfold insertSlots at run
    split at run
    · obtain ⟨⟨rest, last⟩, loop, finish⟩ := seq_eq_ok.mp run
      cases finish
      obtain ⟨done, known⟩ := ih loop later
      exact ⟨done, still (fun _ => rfl) known⟩
    · rename_i unanswered
      obtain ⟨inserted, one, run⟩ := seq_eq_ok.mp run
      cases inserted with
      | some inserted =>
        obtain ⟨⟨rest, last⟩, loop, finish⟩ := seq_eq_ok.mp run
        cases finish
        obtain ⟨done, known⟩ := ih loop later
        exact ⟨trans (insert slot (by simp) (by simpa using unanswered) one) done, still (fun is => by cases is) known⟩
      | none =>
        obtain ⟨⟨rest, last⟩, loop, finish⟩ := seq_eq_ok.mp run
        cases finish
        obtain ⟨done, known⟩ := ih loop later
        exact ⟨done, still (fun _ => rfl) known⟩

theorem convergeSlot_rule {R : Db → Db → Prop} {tries : ℕ} {answer : Uuid × Bool}
    (run : convergeSlot env q workflow slot tries db = .ok (answer, db')) (refl : ∀ d, R d d)
    (insert : ∀ {d e}, insertJob env slot.id (slot.row env q workflow) d = .ok (some e) → R d e) : R db db' := by
  induction tries with
  | zero => cases run
  | succ tries ih =>
    unfold convergeSlot at run
    split at run
    · simp only [seq_eq_ok] at run
      obtain ⟨-, -, finish⟩ := run
      cases finish
      exact refl _
    · split at run
      · simp only [seq_eq_ok] at run
        obtain ⟨-, -, finish⟩ := run
        cases finish
        exact refl _
      · obtain ⟨inserted, one, run⟩ := seq_eq_ok.mp run
        cases inserted with
        | some inserted =>
          cases run
          exact insert one
        | none => exact ih run

/-- The same of the slots that are inserted one by one. -/
theorem convergeSlots_rule {R : Db → Db → Prop} (run : convergeSlots env q workflow slots db = .ok (slots', db'))
    (refl : ∀ d, R d d) (trans : ∀ {d e f}, R d e → R e f → R d f)
    (insert : ∀ slot ∈ slots, slot.answer = none → ∀ {d e}, insertJob env slot.id (slot.row env q workflow) d =
      .ok (some e) → R d e) : R db db' := by
  induction slots generalizing db slots' with
  | nil =>
    cases run
    exact refl _
  | cons slot slots ih =>
    simp only [convergeSlots, seq_eq_ok] at run
    obtain ⟨⟨answered, mid⟩, first, ⟨rest, last⟩, loop, finish⟩ := run
    cases finish
    have own : R db mid := by
      unfold answerSlot at first
      split at first
      · cases first
        exact refl _
      · rename_i unanswered
        obtain ⟨⟨answer, converged⟩, converge, done⟩ := seq_eq_ok.mp first
        cases done
        exact convergeSlot_rule converge refl (insert slot (by simp) (by simpa using unanswered))
    exact trans own (ih loop fun s member => insert s (by simp [member]))

/-- A slot that may be inserted. -/
structure Pending (env : Env) (workflow : Option (Uuid × Workflow)) (next : Uuid) (db : Db)
    (slot : BulkSlot) : Prop where
  admissible : Admissible slot.args
  minted : next ≤ slot.id ∧ slot.id < db.nextUuid
  resolved : Resolved slot.args db (slot.membership env workflow)

theorem membership_live (env : Env) (workflow : Option (Uuid × Workflow)) (slot : BulkSlot) :
    (slot.membership env workflow).live = [] := by
  unfold BulkSlot.membership
  split <;> rfl

theorem admissions_workflow {c d : Core} (steps : Steps (admissions next) c d) (w : Uuid) :
    d.workflows.get? w = c.workflows.get? w :=
  steps.workflow_eq w (by simp [admissions])

theorem Pending.after (pending : Pending env workflow next db slot)
    (path : Path env (admissions next) db db') : Pending env workflow next db' slot := by
  refine ⟨pending.admissible, ⟨pending.minted.1,
    pending.minted.2.trans_le path.steps.nextUuid_le⟩, ?_⟩
  have resolved := pending.resolved
  have none' := membership_live env workflow slot
  generalize slot.membership env workflow = m at resolved none'
  cases resolved with
  | ordinary free => exact .ordinary free
  | member named stored unsealed distinct waits =>
    refine .member named ((admissions_workflow path.steps _).trans stored) unsealed distinct ?_
    intro p live
    simp only [Membership.live] at none'
    simp [none'] at live

theorem Pending.insert {inserted : Db} (pending : Pending env workflow next db slot)
    (run : insertJob env slot.id (slot.row env q workflow) db = .ok (some inserted)) :
    Path env (admissions next) db inserted := by
  refine pending.resolved.enter pending.admissible run pending.minted.2 ?_ rfl
    (.inr (.inr ⟨_, pending.minted.1, rfl⟩))
  simp [membership_live]

/-- Every slot without an answer may be inserted. -/
def Ready (env : Env) (workflow : Option (Uuid × Workflow)) (next : Uuid) (db : Db)
    (slots : List BulkSlot) : Prop :=
  ∀ slot ∈ slots, slot.answer = none → Pending env workflow next db slot

theorem Ready.after (ready : Ready env workflow next db slots) (path : Path env (admissions next) db db') :
    Ready env workflow next db' slots :=
  fun slot member unanswered => (ready slot member unanswered).after path

theorem insertSlots_path (run : insertSlots env q workflow slots db = .ok (slots', db'))
    (ready : Ready env workflow next db slots) :
    Path env (admissions next) db db' ∧ Ready env workflow next db' slots' := by
  induction slots generalizing db slots' with
  | nil =>
    cases run
    exact ⟨.refl _, ready⟩
  | cons slot slots ih =>
    have rest : Ready env workflow next db slots := fun s member => ready s (by simp [member])
    unfold insertSlots at run
    split at run
    · rename_i answered
      obtain ⟨⟨tail, last⟩, loop, finish⟩ := seq_eq_ok.mp run
      cases finish
      obtain ⟨path, after⟩ := ih loop rest
      refine ⟨path, fun s member unanswered => ?_⟩
      obtain rfl | present := List.mem_cons.mp member
      · simp [unanswered] at answered
      · exact after s present unanswered
    · rename_i unanswered
      have pending := ready slot (by simp) (by simpa using unanswered)
      obtain ⟨inserted, insert, run⟩ := seq_eq_ok.mp run
      cases inserted with
      | some inserted =>
        obtain ⟨⟨tail, last⟩, loop, finish⟩ := seq_eq_ok.mp run
        cases finish
        have first := pending.insert insert
        obtain ⟨path, after⟩ := ih loop (rest.after first)
        refine ⟨first.trans path, fun s member unanswered => ?_⟩
        obtain rfl | present := List.mem_cons.mp member
        · cases unanswered
        · exact after s present unanswered
      | none =>
        obtain ⟨⟨tail, last⟩, loop, finish⟩ := seq_eq_ok.mp run
        cases finish
        obtain ⟨path, after⟩ := ih loop rest
        refine ⟨path, fun s member unanswered => ?_⟩
        obtain rfl | present := List.mem_cons.mp member
        · exact pending.after path
        · exact after s present unanswered

theorem convergeSlot_path {tries : ℕ} {answer : Uuid × Bool}
    (run : convergeSlot env q workflow slot tries db = .ok (answer, db'))
    (pending : Pending env workflow next db slot) : Path env (admissions next) db db' := by
  induction tries with
  | zero => cases run
  | succ tries ih =>
    unfold convergeSlot at run
    split at run
    · simp only [seq_eq_ok] at run
      obtain ⟨-, -, finish⟩ := run
      cases finish
      exact .refl _
    · split at run
      · simp only [seq_eq_ok] at run
        obtain ⟨-, -, finish⟩ := run
        cases finish
        exact .refl _
      · obtain ⟨inserted, insert, run⟩ := seq_eq_ok.mp run
        cases inserted with
        | some inserted =>
          cases run
          exact pending.insert insert
        | none => exact ih run

theorem convergeSlots_path (run : convergeSlots env q workflow slots db = .ok (slots', db'))
    (ready : Ready env workflow next db slots) : Path env (admissions next) db db' := by
  induction slots generalizing db slots' with
  | nil =>
    cases run
    exact .refl _
  | cons slot slots ih =>
    simp only [convergeSlots, seq_eq_ok] at run
    obtain ⟨⟨answered, mid⟩, first, ⟨rest, last⟩, loop, finish⟩ := run
    cases finish
    have path : Path env (admissions next) db mid := by
      unfold answerSlot at first
      split at first
      · cases first
        exact .refl _
      · rename_i unanswered
        obtain ⟨⟨answer, converged⟩, converge, done⟩ := seq_eq_ok.mp first
        cases done
        exact convergeSlot_path converge (ready slot (by simp) (by simpa using unanswered))
    refine path.trans (ih loop fun s member unanswered => ?_)
    exact (ready s (by simp [member]) unanswered).after path

end Slots

section Resolve

theorem mapM_replaySlot {w : Uuid} {row : Workflow}
    (run : slots.mapM (replaySlot env w row db) = .ok slots') :
    List.Forall₂ (fun slot slot' => replaySlot env w row db slot = .ok slot') slots slots' := by
  induction slots generalizing slots' with
  | nil =>
    cases run
    exact .nil
  | cons slot slots ih =>
    rw [List.mapM_cons] at run
    simp only [seq_eq_ok, return_eq_ok] at run
    obtain ⟨first, head, rest, tail, rfl⟩ := run
    exact .cons head (ih tail)

/-- A replayed slot keeps its arguments and its id; without an answer its step is free and the
workflow is not sealed. -/
theorem replaySlot_eq_ok {w : Uuid} {row : Workflow} {slot' : BulkSlot}
    (run : replaySlot env w row db slot = .ok slot') :
    slot'.args = slot.args ∧ slot'.id = slot.id ∧ (slot'.answer = none → row.sealedAt = none ∧
      stepHolder db.toCore w slot.args.stepKey = none) := by
  unfold replaySlot at run
  split at run
  · simp only [seq_eq_ok] at run
    obtain ⟨-, -, finish⟩ := run
    cases finish
    exact ⟨rfl, rfl, fun unanswered => by cases unanswered⟩
  · rename_i free
    simp only [seq_eq_ok, ensure_eq_ok] at run
    obtain ⟨-, unsealed, -, -, finish⟩ := run
    cases finish
    exact ⟨rfl, rfl, fun _ => ⟨by simpa using unsealed, free⟩⟩

theorem resolveSlots_ready {w : Option Uuid} {start : Db}
    (run : resolveSlots env queue slots db = .ok (workflow, slots'))
    (parsed : ∀ slot ∈ slots, Parsed queue w start db slot) :
    Ready env workflow start.nextUuid db slots' := by
  unfold resolveSlots at run
  split at run
  · rename_i free
    cases run
    intro slot member _
    have h := parsed slot member
    refine ⟨h.admissible, h.minted, .ordinary ?_⟩
    obtain ⟨head, tail, rfl⟩ := List.exists_cons_of_ne_nil (List.ne_nil_of_mem member)
    rw [h.workflow, ← (parsed head (by simp)).workflow]
    simpa using free
  · rename_i v named
    simp only [seq_eq_ok] at run
    obtain ⟨-, -, -, -, run⟩ := run
    split at run
    · cases run
    · rename_i row stored
      simp only [seq_eq_ok] at run
      obtain ⟨-, -, replayed, replay, finish⟩ := run
      cases finish
      intro slot' member unanswered
      obtain ⟨slot, present, step⟩ := forall₂_right (mapM_replaySlot replay) member
      have h := parsed slot present
      obtain ⟨args, id, free⟩ := replaySlot_eq_ok step
      have workflowId : slot'.args.workflowId = some v := by
        obtain ⟨head, tail, rfl⟩ := List.exists_cons_of_ne_nil (List.ne_nil_of_mem present)
        rw [args, h.workflow, ← (parsed head (by simp)).workflow]
        simpa using named
      refine ⟨args ▸ h.admissible, id ▸ h.minted, ?_⟩
      exact .member workflowId stored (free unanswered).1 List.nodup_nil (by simp)

theorem enqueuedEvents_path {S : Set Label} (env : Env) (ids : List Uuid) (db : Db) :
    Path env S db (enqueuedEvents env ids db) := by
  induction ids generalizing db with
  | nil => exact .refl _
  | cons id ids ih =>
    unfold enqueuedEvents
    split
    · exact ih db
    · exact (insertEvent_path ..).trans (ih _)

theorem enqueuedEvents_frame (env : Env) (ids : List Uuid) (db : Db) :
    ∃ events, enqueuedEvents env ids db = { db with events := events } := by
  induction ids generalizing db with
  | nil => exact ⟨_, rfl⟩
  | cons id ids ih =>
    unfold enqueuedEvents
    split
    · exact ih db
    · exact ih _

theorem bulkEnd_jobs (env : Env) (queue : String) (q : Queue) (ids : List Uuid) (db : Db) :
    (notifyCreated env queue q ids (enqueuedEvents env ids db)).jobs = db.jobs := by
  obtain ⟨events, frame⟩ := enqueuedEvents_frame env ids db
  rw [frame, notifyCreated]
  split_ifs <;> rfl

theorem notifyCreated_path {S : Set Label} (env : Env) (queue : String) (q : Queue) (ids : List Uuid)
    (db : Db) : Path env S db (notifyCreated env queue q ids db) := by
  unfold notifyCreated
  split_ifs <;> exact .aside rfl rfl

theorem reserveSlots_frame {n : ℕ} {reserved : Db}
    (taken : reserveSlots workflow n db = .ok reserved) : ∃ counts, reserved = { db with memberCounts := counts } := by
  unfold reserveSlots at taken
  split at taken
  · split at taken
    · exact reserveWorkflowMembers_frame taken
    · cases taken
      exact ⟨_, rfl⟩
  · cases taken
    exact ⟨_, rfl⟩

theorem reserveSlots_path {n : ℕ} (run : reserveSlots workflow n db = .ok db') :
    Path env {l | ∃ w, l = .reserve w} db db' := by
  unfold reserveSlots at run
  split at run
  · split at run
    · refine (reserveWorkflowMembers_path run).mono ?_
      rintro l rfl
      exact ⟨_, rfl⟩
    · cases run
      exact .refl _
  · cases run
    exact .refl _

theorem enqueueMany_path {jobs : Option Jsonb} {answer : List (ℤ × Uuid × Bool)}
    (run : enqueueMany env queue jobs db = .ok (answer, db')) :
    Path env (admissions db.nextUuid) db db' := by
  simp only [enqueueMany, seq_eq_ok] at run
  obtain ⟨-, -, -, -, run⟩ := run
  split at run
  · cases run
  · simp only [seq_eq_ok] at run
    obtain ⟨⟨slots, parsedDb⟩, parse, ⟨workflow, resolved⟩, resolve, -, -, reserved, reserve,
      ⟨inserted, insertedDb⟩, insert, ⟨converged, convergedDb⟩, converge, finish⟩ := run
    cases finish
    obtain ⟨frame, -, w, -, parsed⟩ := parseSpecs_eq_ok parse
    have mints : Path env (admissions db.nextUuid) db parsedDb := frame ▸ .mints (.inl rfl) db _
    have places : Path env (admissions db.nextUuid) parsedDb reserved :=
      (reserveSlots_path reserve).mono fun l h => .inr (.inl h)
    have ready := (resolveSlots_ready resolve parsed).after places
    obtain ⟨first, left⟩ := insertSlots_path insert ready
    have second := convergeSlots_path converge left
    exact mints.trans (places.trans (first.trans (second.trans
      ((enqueuedEvents_path env _ _).trans (notifyCreated_path env queue _ _ _)))))

end Resolve

end Taskq
