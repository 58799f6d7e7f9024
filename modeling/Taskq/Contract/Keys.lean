import Taskq.Invariants.Admitted
import Taskq.Invariants.Keys
import Taskq.Library.Register

/-! Admission as a register: outside workflows the key of a queue names a job, inside a workflow the step does. -/
namespace Taskq
open Relational

variable {site : Site} {allowed : System → Env → Command → Prop} {s t u : System} {env env' : Env} {db db' : Db} {q : Queue}
  {queue key : String} {w id : Uuid} {step : Option String} {job new : Job} {slot : BulkSlot} {slots slots' : List BulkSlot}
  {workflow : Option (Uuid × Workflow)} {command : Command}

section Holders

/-- Who holds the keys of a queue. -/
def Db.keyHolders (db : Db) (queue : String) (key : String) : Option Uuid := (keyHolder db.toCore queue key).map (·.1)

/-- Who holds the steps of a workflow. -/
def Db.stepHolders (db : Db) (w : Uuid) (step : Option String) : Option Uuid := (stepHolder db.toCore w step).map (·.1)

theorem keyHolders_eq_some (unique : KeysUnique db.toCore) : db.keyHolders queue key = some id ↔
    ∃ job, db.jobs.get? id = some job ∧ job.queue = queue ∧ job.idempotencyKey = some key ∧ job.status.active = true := by
  constructor
  · intro holds
    obtain ⟨⟨other, job⟩, holder, rfl⟩ := Option.map_eq_some_iff.mp holds
    exact ⟨job, keyHolder_eq_some holder⟩
  · rintro ⟨job, stored, queued, keyed, live⟩
    exact Option.map_eq_some_iff.mpr ⟨(id, job), unique.holder stored live queued keyed, rfl⟩

theorem stepHolders_eq_some (unique : StepsUnique db.toCore) : db.stepHolders w step = some id ↔
    ∃ job, db.jobs.get? id = some job ∧ job.workflowId = some w ∧ job.stepKey = step := by
  constructor
  · intro holds
    obtain ⟨⟨other, job⟩, holder, rfl⟩ := Option.map_eq_some_iff.mp holds
    obtain ⟨stored, good⟩ := Table.mem_select.mp (List.mem_of_mem_head? holder)
    exact ⟨job, stored, of_decide_eq_true good⟩
  · rintro ⟨job, stored, member, same⟩
    exact Option.map_eq_some_iff.mpr ⟨(id, job), unique.holder stored member same, rfl⟩

/-- A new row that is none of them leaves the rows with a property as they are. -/
theorem exists_put_iff {jobs : Table Uuid Job} {good : Job → Prop} {other : Uuid} (fresh : jobs.get? id = none)
    (not : ¬good new) : (∃ job, (jobs.put id new).get? other = some job ∧ good job) ↔
      ∃ job, jobs.get? other = some job ∧ good job := by
  by_cases own : other = id
  · subst own
    rw [Table.get?_put_self, fresh]
    simp [not]
  · rw [Table.get?_put_of_ne _ _ own]

/-- A live row under a new id holds its key. -/
theorem keyHolders_put (before : KeysUnique db.toCore) (after : KeysUnique db'.toCore) (fresh : db.jobs.get? id = none)
    (jobs : db'.jobs = db.jobs.put id new) (live : new.status.active = true) (queued : new.queue = queue)
    (free : ∀ key, new.idempotencyKey = some key → db.keyHolders queue key = none) :
    db'.keyHolders queue = Register.enter (db.keyHolders queue) (id, new.idempotencyKey) := by
  funext key
  unfold Register.enter
  have own : db'.jobs.get? id = some new := by rw [jobs, Table.get?_put_self]
  by_cases named : new.idempotencyKey = some key
  · rw [free key named, if_pos named]
    exact (keyHolders_eq_some after).mpr ⟨new, own, queued, named, live⟩
  · rw [if_neg named, Option.or_none]
    apply Option.ext
    intro other
    rw [keyHolders_eq_some after, keyHolders_eq_some before, jobs]
    exact exists_put_iff fresh fun good => named good.2.1

/-- A member under a new id holds its step. -/
theorem stepHolders_put (before : StepsUnique db.toCore) (after : StepsUnique db'.toCore) (fresh : db.jobs.get? id = none)
    (jobs : db'.jobs = db.jobs.put id new) (member : new.workflowId = some w)
    (free : db.stepHolders w new.stepKey = none) :
    db'.stepHolders w = Register.enter (db.stepHolders w) (id, some new.stepKey) := by
  funext step
  unfold Register.enter
  have own : db'.jobs.get? id = some new := by rw [jobs, Table.get?_put_self]
  by_cases named : new.stepKey = step
  · subst named
    rw [free, if_pos rfl]
    exact (stepHolders_eq_some after).mpr ⟨new, own, member, rfl⟩
  · rw [if_neg (by simpa using named), Option.or_none]
    apply Option.ext
    intro other
    rw [stepHolders_eq_some after, stepHolders_eq_some before, jobs]
    exact exists_put_iff fresh fun good => named good.2

/-- In every reachable state a key of a queue names at most one live job, also after retries and redrives brought ended
jobs back, and a step of a workflow names at most one job, live or not. -/
theorem names_lead_to_one_job (reachable : System.Reachable site allowed s) :
    (∀ a b j k, s.db.jobs.get? a = some j → s.db.jobs.get? b = some k → j.status.active = true → k.status.active = true →
      j.queue = k.queue → j.idempotencyKey = some key → k.idempotencyKey = some key → a = b) ∧
    ∀ a b j k, s.db.jobs.get? a = some j → s.db.jobs.get? b = some k → j.workflowId = some w → k.workflowId = some w →
      j.stepKey = k.stepKey → a = b := by
  constructor
  · intro a b j k first second live live' queue keyed keyed'
    exact reachable.keysUnique a j b k first second live live' queue (by simp [keyed]) (keyed.trans keyed'.symm)
  · intro a b j k first second member member' steps
    exact reachable.stepsUnique a j b k first second (by simp [member]) (member.trans member'.symm) steps

/-- The first job under a key. -/
def keyedJob : EnqueueArgs := { EnqueueArgs.simple "q" with idempotencyKey := some "k" }

/-- A key that names a live job. -/
theorem names_lead_to_one_job_keyed : ∃ (s : System) (a : Uuid) (j : Job), s.db.jobs.get? a = some j ∧
    j.status.active = true ∧ j.idempotencyKey = some "k" ∧ ∀ b k, s.db.jobs.get? b = some k → k.status.active = true →
      j.queue = k.queue → k.idempotencyKey = some "k" → a = b := by
  have played : System.plays .digits [(0, .ensureQueue (some "q") none), (0, .enqueue keyedJob)] (.installed .digits 0)
      (fun s => (s.db.jobs.get? 2).any fun j => j.status.active && j.idempotencyKey = some "k") = true := by
    decide +kernel
  obtain ⟨s, run, there⟩ := System.plays_run anyCall played fun _ _ _ => trivial
  obtain ⟨j, stored, good⟩ := (Option.any_eq_true _ _).mp there
  simp only [Bool.and_eq_true, decide_eq_true_eq] at good
  refine ⟨s, 2, j, stored, good.1, good.2, ?_⟩
  intro b k there live queue keyed
  exact (names_lead_to_one_job (w := 0) ⟨0, run⟩).1 2 b j k stored there good.1 live queue good.2 keyed

end Holders

section Slots

variable {answers : List (Uuid × Bool)}

def BulkSlot.settle (slot : BulkSlot) (a : Uuid × Bool) : BulkSlot := { slot with answer := some a }

/-- The request of a slot for its key. -/
def BulkSlot.keyRequest (slot : BulkSlot) : Uuid × Option String := (slot.id, slot.args.idempotencyKey)

/-- The request of a slot for its step. -/
def BulkSlot.stepRequest (slot : BulkSlot) : Uuid × Option (Option String) := (slot.id, some slot.args.stepKey)

/-- The slot has this answer, or the answer is the holder of its key. -/
def Due (workflow : Option (Uuid × Workflow)) (db : Db) (slot : BulkSlot) (a : Uuid × Bool) : Prop :=
  slot.answer = some a ∨ slot.answer = none ∧ workflow = none ∧ a.2 = false ∧
    ∃ key, slot.args.idempotencyKey = some key ∧ db.keyHolders slot.args.queue key = some a.1

/-- Slots whose answers are due get them, and nothing more is inserted. -/
theorem convergeSlots_due (due : List.Forall₂ (Due workflow db) slots answers)
    (run : convergeSlots env q workflow slots db = .ok (slots', db')) :
    db' = db ∧ slots' = List.zipWith BulkSlot.settle slots answers := by
  induction due generalizing slots' with
  | nil =>
    cases run
    exact ⟨rfl, rfl⟩
  | @cons slot a slots answers first _ ih =>
    simp only [convergeSlots, seq_eq_ok] at run
    obtain ⟨⟨answered, mid⟩, one, ⟨rest, last⟩, loop, finish⟩ := run
    cases finish
    have own : answered = slot.settle a ∧ mid = db := by
      unfold answerSlot at one
      obtain has | ⟨free, rfl, other, key, keyed, holds⟩ := first
      · rw [has, Option.isSome_some, if_pos rfl] at one
        cases one
        exact ⟨by rw [BulkSlot.settle, ← has], rfl⟩
      · obtain ⟨⟨holder, job⟩, holder', same⟩ := Option.map_eq_some_iff.mp holds
        rw [free, Option.isSome_none, if_neg (by decide)] at one
        simp only [convergeSlot, Option.bind_none, keyed, Option.bind_some, holder', seq_eq_ok] at one
        obtain ⟨_, ⟨-, -, found⟩, done⟩ := one
        cases found
        cases done
        obtain rfl : a = (holder, false) := Prod.ext same.symm other
        exact ⟨rfl, rfl⟩
    obtain ⟨rfl, rfl⟩ := own
    obtain ⟨rfl, rfl⟩ := ih loop
    exact ⟨rfl, rfl⟩

/-- What the insert of a slot outside workflows does to the keys, with the answer that it gives. -/
theorem insertJob_keys {row : JobRow} {answer : Option Db} (unique : KeysUnique db.toCore) (live : row.status.active = true)
    (queued : row.queue = queue) (run : insertJob env id row db = .ok answer) :
    (∃ inserted, answer = some inserted ∧ Register.answer (db.keyHolders queue) (id, row.idempotencyKey) = (id, true) ∧
      inserted.keyHolders queue = Register.enter (db.keyHolders queue) (id, row.idempotencyKey)) ∨
    answer = none ∧ ∃ key holder, row.idempotencyKey = some key ∧ db.keyHolders queue key = some holder := by
  cases answer with
  | some inserted =>
    have free : ∀ key, row.idempotencyKey = some key → db.keyHolders queue key = none := by
      intro key keyed
      obtain ⟨_, _, _, -, -, clear, fresh, -⟩ := insertJob_frame run
      exact Option.map_eq_none_iff.mpr (queued ▸ idemClash_eq_false keyed live fresh clear)
    have after : KeysUnique inserted.toCore := unique.revision (.insert run)
    obtain ⟨new, counts, counters, same, -, -, fresh, -, -, rfl⟩ := insertJob_frame run
    refine .inl ⟨_, rfl, ?_, ?_⟩
    · unfold Register.answer
      cases keyed : row.idempotencyKey with
      | none => rfl
      | some key => simp [free key keyed]
    · subst same
      exact keyHolders_put unique after fresh rfl live queued free
  | none =>
    refine .inr ⟨rfl, ?_⟩
    have clash := insertJob_none run
    cases keyed : row.idempotencyKey with
    | none => simp [idemClash, keyed] at clash
    | some key =>
      cases holds : db.keyHolders queue key with
      | some holder => exact ⟨key, holder, rfl, holds⟩
      | none =>
        rw [idemClash_of_free keyed (queued ▸ Option.map_eq_none_iff.mp holds)] at clash
        cases clash

/-- The set-based insert of slots outside workflows enters their requests for keys one after the other. -/
theorem insertSlots_keys (unique : KeysUnique db.toCore) (plain : ∀ slot ∈ slots, slot.answer = none ∧ slot.args.queue = queue)
    (run : insertSlots env q none slots db = .ok (slots', db')) : KeysUnique db'.toCore ∧
    db'.keyHolders queue = Register.after (db.keyHolders queue) (slots.map BulkSlot.keyRequest) ∧
    List.Forall₂ (Due none db') slots' (Register.answers (db.keyHolders queue) (slots.map BulkSlot.keyRequest)) := by
  induction slots generalizing db slots' with
  | nil =>
    cases run
    exact ⟨unique, rfl, .nil⟩
  | cons slot slots ih =>
    obtain ⟨⟨open', queued⟩, plain⟩ := List.forall_mem_cons.mp plain
    have live : (slot.row env q none).status.active = true := rfl
    unfold insertSlots at run
    rw [open', Option.isSome_none, if_neg (by decide)] at run
    obtain ⟨answer, insert, run⟩ := seq_eq_ok.mp run
    obtain ⟨inserted, rfl, own, entered⟩ | ⟨rfl, key, holder, keyed, holds⟩ := insertJob_keys unique live queued insert
    · obtain ⟨⟨rest, last⟩, loop, finish⟩ := seq_eq_ok.mp run
      cases finish
      have after : KeysUnique inserted.toCore := unique.revision (.insert insert)
      obtain ⟨unique', held, due⟩ := ih after plain loop
      rw [entered] at held due
      exact ⟨unique', held, .cons (.inl (congrArg some own.symm)) due⟩
    · obtain ⟨⟨rest, last⟩, loop, finish⟩ := seq_eq_ok.mp run
      cases finish
      obtain ⟨unique', held, due⟩ := ih unique plain loop
      have named : slot.keyRequest.2 = some key := keyed
      obtain ⟨same, answered⟩ := Register.enter_of_held named holds
      rw [List.map_cons, Register.after_cons, Register.answers_cons, same, answered]
      refine ⟨unique', held, .cons (.inr ⟨open', rfl, rfl, key, keyed, ?_⟩) due⟩
      rw [queued, held]
      exact Register.after_held holds _

/-- No member has the step of a row that was inserted. -/
theorem stepHolders_inserted {row : JobRow} (unique : StepsUnique db.toCore) (member : row.workflowId = some w)
    (run : insertJob env id row db = .ok (some db')) : StepsUnique db'.toCore ∧
    Register.answer (db.stepHolders w) (id, some row.stepKey) = (id, true) ∧
    db'.stepHolders w = Register.enter (db.stepHolders w) (id, some row.stepKey) := by
  obtain ⟨new, counts, counters, same, -, -, fresh, free, -, rfl⟩ := insertJob_frame run
  subst same
  have other {j : Uuid} {job : Job} (here : db.jobs.get? j = some job) :
      ¬(job.workflowId = some w ∧ job.stepKey = new.stepKey) := by
    intro taken
    have there : (j, job) ∈ db.jobs.select fun _ j => j.workflowId = new.workflowId ∧ j.stepKey = new.stepKey :=
      Table.mem_select.mpr ⟨here, decide_eq_true (member ▸ taken)⟩
    simp only [stepTaken, member, Option.isSome_some, Bool.true_and, decide_eq_false_iff_not, not_not,
      List.length_eq_zero_iff] at free
    rw [member, free] at there
    cases there
  have none' : db.stepHolders w new.stepKey = none := by
    by_contra holds
    obtain ⟨holder, holds⟩ := Option.ne_none_iff_exists'.mp holds
    obtain ⟨job, there, taken⟩ := (stepHolders_eq_some unique).mp holds
    exact other there taken
  have unique' : StepsUnique (db.jobs.put id new |> fun jobs => { db.toCore with jobs := jobs }) := by
    intro a j b k first second joined together steps
    rw [Table.get?_put] at first second
    by_cases own : a = id <;> by_cases own' : b = id
    · exact own.trans own'.symm
    · rw [if_pos own] at first
      rw [if_neg own'] at second
      cases first
      exact absurd ⟨together.symm.trans member, steps.symm⟩ (other second)
    · rw [if_neg own] at first
      rw [if_pos own'] at second
      cases second
      exact absurd ⟨together.trans member, steps⟩ (other first)
    · rw [if_neg own] at first
      rw [if_neg own'] at second
      exact unique a j b k first second joined together steps
  refine ⟨unique', ?_, stepHolders_put unique unique' fresh rfl member none'⟩
  simp [Register.answer, none']

/-- The set-based insert of the slots of a workflow enters their requests for steps one after the other. -/
theorem insertSlots_steps (unique : StepsUnique db.toCore) (given : ∀ slot ∈ slots, slot.args.workflowId = some w)
    (replayed : ∀ slot ∈ slots, slot.answer = (db.stepHolders w slot.args.stepKey).map fun holder => (holder, false))
    (apart : (slots.map (·.args.stepKey)).Nodup) (unheld : Unheld db slots)
    (distinct : (slots.filterMap (·.args.idempotencyKey)).Nodup)
    (run : insertSlots env q workflow slots db = .ok (slots', db')) :
    db'.stepHolders w = Register.after (db.stepHolders w) (slots.map BulkSlot.stepRequest) ∧
    List.Forall₂ (Due workflow db') slots' (Register.answers (db.stepHolders w) (slots.map BulkSlot.stepRequest)) := by
  induction slots generalizing db slots' with
  | nil =>
    cases run
    exact ⟨rfl, .nil⟩
  | cons slot slots ih =>
    obtain ⟨member, given⟩ := List.forall_mem_cons.mp given
    obtain ⟨own, replayed⟩ := List.forall_mem_cons.mp replayed
    obtain ⟨alone, apart⟩ := List.nodup_cons.mp apart
    have distinct' : (slots.filterMap (·.args.idempotencyKey)).Nodup :=
      distinct.sublist ((List.sublist_cons_self slot slots).filterMap _)
    unfold insertSlots at run
    rw [List.map_cons, Register.after_cons, Register.answers_cons]
    split at run
    · rename_i answered
      obtain ⟨⟨rest, last⟩, loop, finish⟩ := seq_eq_ok.mp run
      cases finish
      cases holds : db.stepHolders w slot.args.stepKey with
      | none => simp [own, holds] at answered
      | some holder =>
        have named : slot.stepRequest.2 = some slot.args.stepKey := rfl
        obtain ⟨same, answer⟩ := Register.enter_of_held named holds
        rw [same, answer]
        obtain ⟨held, due⟩ := ih unique given replayed apart (fun s there => unheld s (by simp [there])) distinct' loop
        exact ⟨held, .cons (.inl (own.trans (by rw [holds]; rfl))) due⟩
    · rename_i unanswered
      have open' : slot.answer = none := by simpa using unanswered
      obtain ⟨answer, insert, run⟩ := seq_eq_ok.mp run
      obtain ⟨inserted, rfl⟩ := unheld.inserted (by simp) open' insert
      obtain ⟨⟨rest, last⟩, loop, finish⟩ := seq_eq_ok.mp run
      cases finish
      obtain ⟨unique', answer, entered⟩ := stepHolders_inserted unique member insert
      have unheld' : Unheld inserted slots := by
        refine Unheld.after (fun s there => unheld s (by simp [there])) insert ?_
        intro s there key keyed same
        have keys : slot.args.idempotencyKey = some key := same
        simp only [List.filterMap_cons, keys] at distinct
        exact (List.nodup_cons.mp distinct).1 (List.mem_filterMap.mpr ⟨s, there, keyed⟩)
      have replayed' : ∀ s ∈ slots, s.answer = (inserted.stepHolders w s.args.stepKey).map fun holder => (holder, false) := by
        intro s there
        rw [entered, Register.enter_of_ne, replayed s there]
        intro same
        exact alone (List.mem_map.mpr ⟨s, there, (Option.some.inj same).symm⟩)
      obtain ⟨held, due⟩ := ih unique' given replayed' apart unheld' distinct' loop
      rw [entered] at held due
      exact ⟨held, .cons (.inl (congrArg some answer.symm)) due⟩

/-- The set-based insert keeps every row and adds those of the slots that it answers. -/
theorem insertSlots_adds (old : ∀ slot ∈ slots, ∀ id, slot.answer ≠ some (id, true))
    (run : insertSlots env q workflow slots db = .ok (slots', db')) :
    (∀ id job, db.jobs.get? id = some job → db'.jobs.get? id = some job) ∧
    ∀ id, db.jobs.get? id = none → ((db'.jobs.get? id).isSome = true ↔ ∃ slot ∈ slots', slot.answer = some (id, true)) := by
  induction slots generalizing db slots' with
  | nil =>
    cases run
    exact ⟨fun _ _ here => here, fun id absent => by simp [absent]⟩
  | cons slot slots ih =>
    obtain ⟨first, old⟩ := List.forall_mem_cons.mp old
    unfold insertSlots at run
    split at run
    · obtain ⟨⟨rest, last⟩, loop, finish⟩ := seq_eq_ok.mp run
      cases finish
      obtain ⟨kept, new⟩ := ih old loop
      refine ⟨kept, fun id absent => ?_⟩
      simp [new id absent, first id]
    · rename_i unanswered
      obtain ⟨answer, insert, run⟩ := seq_eq_ok.mp run
      cases answer with
      | none =>
        obtain ⟨⟨rest, last⟩, loop, finish⟩ := seq_eq_ok.mp run
        cases finish
        obtain ⟨kept, new⟩ := ih old loop
        refine ⟨kept, fun id absent => ?_⟩
        simp [new id absent, first id]
      | some inserted =>
        obtain ⟨⟨rest, last⟩, loop, finish⟩ := seq_eq_ok.mp run
        cases finish
        obtain ⟨kept, new⟩ := ih old loop
        refine ⟨fun id job here => kept id job (insertJob_rows insert here), fun id absent => ?_⟩
        obtain ⟨row, _, _, -, -, -, fresh, -, -, rfl⟩ := insertJob_frame insert
        by_cases own : id = slot.id
        · subst own
          have there := kept slot.id row (Table.get?_put_self _ _ _)
          simp [there]
        · have absent' : ({ db with jobs := db.jobs.put slot.id row } : Db).jobs.get? id = none :=
            (Table.get?_put_of_ne _ _ own).trans absent
          simp [new id absent', Ne.symm own]

/-- The created answers that are due are those of the slots that have theirs. -/
theorem due_created {answers : List (Uuid × Bool)} (due : List.Forall₂ (Due workflow db) slots answers) (id : Uuid) :
    (∃ slot ∈ slots, slot.answer = some (id, true)) ↔ (id, true) ∈ answers := by
  induction due with
  | nil => simp
  | cons first _ ih =>
    rw [List.mem_cons, ← ih]
    obtain has | ⟨open', -, found, -⟩ := first
    · simp [has, eq_comm]
    · have other : (id, true) ≠ ‹Uuid × Bool› := by
        rintro rfl
        cases found
      simp [open', other]

end Slots

section Batch

variable {ids : List Uuid} {args : List EnqueueArgs} {jobs : Option Jsonb} {answers : List (ℤ × Uuid × Bool)}
  {given : List (Uuid × Bool)}

theorem parseSpecs_args {specs : List Jsonb} {index : ℤ} {mode : Option (Option Uuid)}
    (run : parseSpecs env queue q specs index mode db = .ok (slots, db')) :
    List.Forall₂ (fun spec a => parseSpec env queue q spec = .ok a) specs (slots.map (·.args)) := by
  induction specs generalizing index mode db slots with
  | nil =>
    cases run
    exact .nil
  | cons spec specs ih =>
    simp only [parseSpecs, seq_eq_ok, mapError_eq_ok] at run
    obtain ⟨-, -, a, parse, -, -, -, -, ⟨rest, last⟩, loop, finish⟩ := run
    cases finish
    exact .cons parse (ih loop)

/-- A slot of a workflow comes with the answer of its step, if there is one. -/
theorem replaySlot_answer {r : Workflow} {slot' : BulkSlot} (open' : slot.answer = none)
    (run : replaySlot env w r db slot = .ok slot') :
    slot'.answer = (db.stepHolders w slot.args.stepKey).map fun holder => (holder, false) := by
  unfold replaySlot at run
  unfold Db.stepHolders
  split at run
  · rename_i id member holds
    obtain ⟨-, -, finish⟩ := seq_eq_ok.mp run
    cases finish
    rw [holds]
    rfl
  · rename_i free
    simp only [seq_eq_ok] at run
    obtain ⟨-, -, -, -, finish⟩ := run
    cases finish
    rw [free, open']
    rfl

/-- The slots of a bulk call after the replays: as they were, or those of one workflow with their steps looked up. -/
inductive SlotsResolved (db : Db) (slots slots' : List BulkSlot) : Option (Uuid × Workflow) → Prop
  | alone (same : slots' = slots) (ordinary : ∀ slot ∈ slots, slot.args.workflowId = none) : SlotsResolved db slots slots' none
  | members {w : Uuid} {r : Workflow} (args : slots'.map (·.args) = slots.map (·.args))
      (ids : slots'.map (·.id) = slots.map (·.id)) (apart : (slots.map (·.args.stepKey)).Nodup)
      (replayed : ∀ slot ∈ slots', slot.answer =
        (db.stepHolders w slot.args.stepKey).map fun holder => (holder, false)) : SlotsResolved db slots slots' (some (w, r))

theorem resolveSlots_resolved {v : Option Uuid} {start : Db}
    (run : resolveSlots env queue slots db = .ok (workflow, slots'))
    (parsed : ∀ slot ∈ slots, Parsed queue v start db slot) : SlotsResolved db slots slots' workflow := by
  unfold resolveSlots at run
  split at run
  · rename_i free
    cases run
    refine .alone rfl ?_
    intro slot member
    obtain ⟨head, tail, rfl⟩ := List.exists_cons_of_ne_nil (List.ne_nil_of_mem member)
    rw [(parsed slot member).workflow, ← (parsed head (by simp)).workflow]
    simpa using free
  · rename_i w named
    simp only [seq_eq_ok, ensure_eq_ok] at run
    obtain ⟨-, apart, -, -, run⟩ := run
    split at run
    · cases run
    · rename_i r stored
      simp only [seq_eq_ok] at run
      obtain ⟨-, -, replayed, replay, finish⟩ := run
      cases finish
      have steps := mapM_replaySlot replay
      have same : List.Forall₂ (fun slot slot' : BulkSlot => slot'.args = slot.args ∧ slot'.id = slot.id) slots slots' :=
        steps.imp fun _ _ step => ⟨(replaySlot_eq_ok step).1, (replaySlot_eq_ok step).2.1⟩
      refine .members ?_ ?_ apart ?_
      · clear steps replay parsed named apart
        induction same with
        | nil => rfl
        | cons one _ ih => simp [one, ih]
      · clear steps replay parsed named apart
        induction same with
        | nil => rfl
        | cons one _ ih => simp [one, ih]
      · intro slot' member
        obtain ⟨slot, present, step⟩ := forall₂_right steps member
        rw [replaySlot_answer (parsed slot present).open' step, (replaySlot_eq_ok step).1]

/-- The answers of a batch are those of a register: of keys outside workflows, of steps inside one. -/
inductive BatchRegisters (queue : String) (db db' : Db) (ids : List Uuid) (args : List EnqueueArgs)
    (answers : List (Uuid × Bool)) : Prop
  | keys (ordinary : ∀ a ∈ args, a.workflowId = none)
      (answered : answers = Register.answers (db.keyHolders queue) (ids.zip (args.map (·.idempotencyKey))))
      (held : db'.keyHolders queue = Register.after (db.keyHolders queue) (ids.zip (args.map (·.idempotencyKey)))) :
      BatchRegisters queue db db' ids args answers
  | steps (w : Uuid) (members : ∀ a ∈ args, a.workflowId = some w)
      (answered : answers = Register.answers (db.stepHolders w) (ids.zip (args.map fun a => some a.stepKey)))
      (held : db'.stepHolders w = Register.after (db.stepHolders w) (ids.zip (args.map fun a => some a.stepKey))) :
      BatchRegisters queue db db' ids args answers

theorem settled_answers {given : List (Uuid × Bool)} (same : slots.length = given.length) :
    ((List.zipWith BulkSlot.settle slots given).filterMap fun slot =>
      slot.answer.map fun a => (slot.index, a.1, a.2)).map (·.2) = given := by
  induction slots generalizing given with
  | nil =>
    cases given with
    | nil => rfl
    | cons => cases same
  | cons slot slots ih =>
    cases given with
    | nil => cases same
    | cons a given => simpa [BulkSlot.settle] using ih (Nat.succ.inj same)

theorem keyHolders_congr (jobs : db'.jobs = db.jobs) : db'.keyHolders = db.keyHolders := by
  funext queue key
  simp only [Db.keyHolders, keyHolder, jobs]

theorem stepHolders_congr (jobs : db'.jobs = db.jobs) : db'.stepHolders = db.stepHolders := by
  funext w step
  simp only [Db.stepHolders, stepHolder, jobs]

/-- A bulk call answers its specs as a register does that its requests enter one after the other: outside workflows by
the keys of the queue, else by the steps of the workflow. It keeps every job, and adds exactly those it reports. -/
theorem enqueueMany_registers (reachable : System.Reachable site allowed s)
    (run : enqueueMany env queue jobs s.db = .ok (answers, db')) :
    ∃ q ids args, s.db.queues.get? queue = some q ∧
      List.Forall₂ (fun spec a => parseSpec env queue q spec = .ok a) ((jobs.map (·.elements)).getD []) args ∧
      ids.length = args.length ∧ ids.Nodup ∧ (∀ id ∈ ids, s.db.jobs.get? id = none) ∧
      BatchRegisters queue s.db db' ids args (answers.map (·.2)) ∧
      (∀ id job, s.db.jobs.get? id = some job → db'.jobs.get? id = some job) ∧
      ∀ id, s.db.jobs.get? id = none → ((db'.jobs.get? id).isSome = true ↔ (id, true) ∈ answers.map (·.2)) := by
  simp only [enqueueMany, seq_eq_ok] at run
  obtain ⟨-, -, -, -, run⟩ := run
  split at run
  · cases run
  rename_i q stored
  simp only [seq_eq_ok] at run
  obtain ⟨⟨slots, parsedDb⟩, parse, ⟨workflow, resolved⟩, resolve, -, -, reserved, reserve,
    ⟨inserted, insertedDb⟩, insert, ⟨converged, convergedDb⟩, converge, finish⟩ := run
  cases finish
  have shape := parseSpecs_args parse
  obtain ⟨rfl, distinct, v, -, parsed⟩ := parseSpecs_eq_ok parse
  have keys := resolveSlots_resolutions resolve parsed
  have steps := resolveSlots_resolved resolve parsed
  have jobs' : reserved.jobs = s.db.jobs := by
    obtain ⟨counts, rfl⟩ := reserveSlots_frame reserve
    rfl
  refine ⟨q, slots.map (·.id), slots.map (·.args), stored, shape, by simp, distinct, ?_, ?_⟩
  · intro id member
    obtain ⟨slot, present, rfl⟩ := List.mem_map.mp member
    by_contra here
    have minted := (parsed slot present).minted.1
    exact absurd (reachable.minted.jobs _ here) minted.not_gt
  have old : ∀ slot ∈ resolved, ∀ id, slot.answer ≠ some (id, true) := by
    intro slot member id answered
    cases steps with
    | alone same =>
      subst same
      cases (parsed slot member).open'.symm.trans answered
    | members args ids apart replayed =>
      rw [replayed slot member, Option.map_eq_some_iff] at answered
      obtain ⟨holder, -, same⟩ := answered
      cases same
  obtain ⟨kept, new⟩ := insertSlots_adds old insert
  rw [jobs'] at kept new
  have finished := bulkEnd_jobs env queue q (createdJobs converged) convergedDb
  suffices registers : ∃ given, List.Forall₂ (Due workflow insertedDb) inserted given ∧
      BatchRegisters queue s.db insertedDb (slots.map (·.id)) (slots.map (·.args)) given by
    obtain ⟨given, due, registers⟩ := registers
    obtain ⟨rfl, rfl⟩ := convergeSlots_due due converge
    rw [settled_answers due.length_eq]
    refine ⟨?_, ?_, ?_⟩
    · cases registers with
      | keys ordinary answered held => exact .keys ordinary answered (by rw [keyHolders_congr finished, held])
      | steps w members answered held => exact .steps w members answered (by rw [stepHolders_congr finished, held])
    · intro id job here
      rw [finished]
      exact kept id job here
    · intro id absent
      rw [finished, new id absent, due_created due]
  cases steps with
  | alone same ordinary =>
    subst same
    have plain : ∀ slot ∈ resolved, slot.answer = none ∧ slot.args.queue = queue :=
      fun slot member => ⟨(parsed slot member).open', (parsed slot member).queue⟩
    have kept : Revision env s.db reserved := .same jobs'
    have unique := reachable.keysUnique.revision kept
    obtain ⟨-, held, due⟩ := insertSlots_keys unique plain insert
    have requests : resolved.map BulkSlot.keyRequest =
        (resolved.map (·.id)).zip ((resolved.map (·.args)).map (·.idempotencyKey)) := by
      rw [List.map_map, List.zip_map']
      rfl
    rw [requests, keyHolders_congr jobs'] at held due
    exact ⟨_, due, .keys (by simpa using ordinary) rfl held⟩
  | @members w r args ids apart replayed =>
    cases keys with
    | members given unheld distinct' =>
      have apart' : (resolved.map (·.args.stepKey)).Nodup := by
        have through (l : List BulkSlot) : l.map (·.args.stepKey) = (l.map (·.args)).map (·.stepKey) := by
          rw [List.map_map]
          rfl
        rw [through, args, ← through]
        exact apart
      have unique : StepsUnique reserved.toCore := by
        unfold StepsUnique
        rw [jobs']
        exact reachable.stepsUnique
      have unheld' : Unheld reserved resolved := by
        intro slot member open' key keyed
        have free := unheld slot member open' key keyed
        rw [keyHolder_eq_none] at free ⊢
        rw [jobs']
        exact free
      obtain ⟨held, due⟩ := insertSlots_steps unique given
        (fun slot member => by rw [stepHolders_congr jobs']; exact replayed slot member) apart' unheld' distinct' insert
      have requests : resolved.map BulkSlot.stepRequest =
          (slots.map (·.id)).zip ((slots.map (·.args)).map fun a => some a.stepKey) := by
        rw [← ids, ← args, List.map_map, List.zip_map']
        rfl
      rw [requests, stepHolders_congr jobs'] at held due
      refine ⟨_, due, .steps w ?_ rfl held⟩
      rw [← args]
      simpa using given

/-- How specs are answered by their names: specs of one name get one job, which has the name from then on and had it
before if any job did; and one of them is reported as created if none did. -/
def AnswersByName {κ : Type} [DecidableEq κ] (name : EnqueueArgs → Option κ) (held held' : κ → Option Uuid)
    (args : List EnqueueArgs) (given : List (Uuid × Bool)) : Prop := ∀ k,
  (∀ e ∈ args.zip given, name e.1 = some k → held' k = some e.2.1 ∧ ∀ holder, held k = some holder → e.2.1 = holder) ∧
  (args.zip given).countP (fun e => name e.1 = some k ∧ e.2.2) =
    if held k = none ∧ ∃ a ∈ args, name a = some k then 1 else 0

theorem zip_requests {κ : Type} (name : EnqueueArgs → κ) (same : ids.length = args.length) (given : List (Uuid × Bool)) :
    ((ids.zip (args.map name)).zip given).map (fun e => (e.1.2, e.2)) = (args.zip given).map fun e => (name e.1, e.2) := by
  induction ids generalizing args given with
  | nil =>
    cases args with
    | nil => rfl
    | cons => cases same
  | cons id ids ih =>
    cases args with
    | nil => cases same
    | cons a args =>
      cases given with
      | nil => rfl
      | cons e given => simpa using ih (Nat.succ.inj same) given

/-- The answers of a register are answers by name. -/
theorem answersByName {κ : Type} [DecidableEq κ] {name : EnqueueArgs → Option κ} {held held' : κ → Option Uuid}
    (same : ids.length = args.length) (answered : given = Register.answers held (ids.zip (args.map name)))
    (after : held' = Register.after held (ids.zip (args.map name))) : AnswersByName name held held' args given := by
  subst answered after
  intro k
  have zipped := zip_requests name same (Register.answers held (ids.zip (args.map name)))
  constructor
  · intro e member named
    have there : (some k, e.2) ∈ (args.zip (Register.answers held (ids.zip (args.map name)))).map
        fun e => (name e.1, e.2) := List.mem_map.mpr ⟨e, member, by rw [named]⟩
    rw [← zipped] at there
    obtain ⟨f, there, own⟩ := List.mem_map.mp there
    obtain ⟨own, same'⟩ := Prod.ext_iff.mp own
    rw [← same']
    refine ⟨Register.after_answer there own, ?_⟩
    intro holder holds
    have still := Register.after_held holds (ids.zip (args.map name))
    exact Option.some.inj ((Register.after_answer there own).symm.trans still)
  · have counted := Register.created_once held (ids.zip (args.map name)) k
    have both := congrArg (List.countP fun e : Option κ × Uuid × Bool => e.1 = some k ∧ e.2.2) zipped
    rw [List.countP_map, List.countP_map] at both
    refine both.symm.trans (counted.trans (if_congr (and_congr_right fun _ => ?_) rfl rfl))
    have names : (ids.zip (args.map name)).map Prod.snd = args.map name := List.map_snd_zip (by simp [same])
    have there : (∃ request ∈ ids.zip (args.map name), request.2 = some k) ↔
        some k ∈ (ids.zip (args.map name)).map Prod.snd := List.mem_map.symm
    rw [there, names, List.mem_map]

/-- The specs of a bulk call are answered by name: by their keys on the queue outside workflows, else by their steps in
the workflow. The call keeps every job, and adds exactly those that it reports as created. -/
theorem bulk_admissions_answer_by_name (reachable : System.Reachable site allowed s)
    (run : enqueueMany env queue jobs s.db = .ok (answers, db')) :
    (∃ q args, s.db.queues.get? queue = some q ∧ args.length = answers.length ∧
      List.Forall₂ (fun spec a => parseSpec env queue q spec = .ok a) ((jobs.map (·.elements)).getD []) args ∧
      ((∀ a ∈ args, a.workflowId = none) ∧ AnswersByName (·.idempotencyKey) (s.db.keyHolders queue)
          (db'.keyHolders queue) args (answers.map (·.2)) ∨
        ∃ w, (∀ a ∈ args, a.workflowId = some w) ∧ AnswersByName (fun a => some a.stepKey) (s.db.stepHolders w)
          (db'.stepHolders w) args (answers.map (·.2)))) ∧
    (∀ id job, s.db.jobs.get? id = some job → db'.jobs.get? id = some job) ∧
    ∀ id, s.db.jobs.get? id = none → ((db'.jobs.get? id).isSome = true ↔ (id, true) ∈ answers.map (·.2)) := by
  obtain ⟨q, ids, args, stored, parsed, same, -, -, registers, kept, new⟩ := enqueueMany_registers reachable run
  refine ⟨⟨q, args, stored, ?_, parsed, ?_⟩, kept, new⟩
  · have length : (answers.map (·.2)).length = args.length := by
      cases registers with
      | keys _ answered => simp [answered, same]
      | steps _ _ answered => simp [answered, same]
    rw [← length, List.length_map]
  · cases registers with
    | keys ordinary answered held => exact .inl ⟨ordinary, answersByName same answered held⟩
    | steps w members answered held => exact .inr ⟨w, members, answersByName same answered held⟩

/-- Two specs with one key. -/
def twinSpecs : Jsonb :=
  .arr [.obj [("idempotency_key", .str "k"), ("job_type", .str "t")], .obj [("idempotency_key", .str "k"), ("job_type", .str "t")]]

/-- Of two specs with one key the first is created, and the second is answered with it. -/
theorem bulk_admissions_answer_by_name_twins : ∃ (s : System) (answers : List (ℤ × Uuid × Bool)) (db' : Db),
    enqueueMany (.alone .digits 0 9) "q" (some twinSpecs) s.db = .ok (answers, db') ∧
    answers.map (·.2.2) = [true, false] ∧ (answers.map (·.2.1)).dedup.length = 1 ∧
    ∀ id, s.db.jobs.get? id = none → ((db'.jobs.get? id).isSome = true ↔ (id, true) ∈ answers.map (·.2)) := by
  have played : System.plays .digits [(0, .ensureQueue (some "q") none)] (.installed .digits 0) (fun s =>
      (enqueueMany (.alone .digits 0 9) "q" (some twinSpecs) s.db).toOption.any fun e =>
        e.1.map (·.2.2) = [true, false] && (e.1.map (·.2.1)).dedup.length = 1) = true := by
    decide +kernel
  obtain ⟨s, run, there⟩ := System.plays_run anyCall played fun _ _ _ => trivial
  obtain ⟨⟨answers, db'⟩, call, fired⟩ := (Option.any_eq_true _ _).mp there
  replace call := toOption_eq_some.mp call
  simp only [Bool.and_eq_true, decide_eq_true_eq] at fired
  exact ⟨s, answers, db', call, fired.1, fired.2, (bulk_admissions_answer_by_name ⟨0, run⟩ call).2.2⟩

end Batch

section Admissions

variable {id' : Uuid} {created created' : Bool}

/-- An admission of a job outside workflows under a key of a queue, the job that it answers with, and whether it reports
that job as created. -/
inductive KeyAdmission (env : Env) (queue key : String) (db db' : Db) : Uuid → Bool → Prop
  | single {a : EnqueueArgs} {id : Uuid} {created : Bool} (queued : a.queue = queue) (alone : a.workflowId = none)
      (keyed : a.idempotencyKey = some key) (run : enqueue env a db = .ok ((id, created), db')) :
      KeyAdmission env queue key db db' id created
  | attempt {a : EnqueueArgs} {verdict : Verdict} {id : Uuid} {hint : Option ℤ} (queued : a.queue = queue)
      (alone : a.workflowId = none) (keyed : a.idempotencyKey = some key)
      (run : tryEnqueue env a db = .ok ((verdict, some id, hint), db')) :
      KeyAdmission env queue key db db' id (verdict = .accepted)
  | bulk {jobs : Option Jsonb} {answers : List (ℤ × Uuid × Bool)} {q : Queue} {n : ℕ} {spec : Jsonb} {a : EnqueueArgs}
      {index : ℤ} {id : Uuid} {created : Bool} (stored : db.queues.get? queue = some q)
      (given : ((jobs.map (·.elements)).getD [])[n]? = some spec) (parsed : parseSpec env queue q spec = .ok a)
      (alone : a.workflowId = none) (keyed : a.idempotencyKey = some key) (answered : answers[n]? = some (index, id, created))
      (run : enqueueMany env queue jobs db = .ok (answers, db')) : KeyAdmission env queue key db db' id created

/-- The job of the answer has the key afterwards, and is the holder if there was one. -/
def Agrees (queue key : String) (db db' : Db) (id : Uuid) (created : Bool) : Prop :=
  db'.keyHolders queue key = some id ∧ ∀ holder, db.keyHolders queue key = some holder → id = holder ∧ created = false

theorem Converged.agrees {a : EnqueueArgs} (unique' : KeysUnique db'.toCore)
    (keyed : a.idempotencyKey = some key) (converged : Converged env a key db (id, created) db') :
    Agrees a.queue key db db' id created := by
  cases converged with
  | @inserted _ job q _ free new stored row jobs =>
    constructor
    · have there : db'.jobs.get? id = some job := by rw [jobs, Table.get?_put_self]
      refine (keyHolders_eq_some unique').mpr ⟨job, there, ?_⟩
      rw [row]
      exact ⟨rfl, keyed, rfl⟩
    · intro holder holds
      rw [Db.keyHolders, free] at holds
      cases holds
  | held holds jobs =>
    have own : db.keyHolders a.queue key = some id := by rw [Db.keyHolders, holds, Option.map_some]
    refine ⟨by rw [keyHolders_congr jobs, own], ?_⟩
    intro holder holds'
    exact ⟨Option.some.inj (own.symm.trans holds'), rfl⟩

theorem KeyAdmission.agrees (reachable : System.Reachable site allowed s)
    (admission : KeyAdmission env queue key s.db db' id created) : Agrees queue key s.db db' id created := by
  have unique := reachable.keysUnique
  have after (command : Command) (run : command.exec env s.db = .ok db') : KeysUnique db'.toCore :=
    Command.exec_revised (I := fun db => KeysUnique db.toCore) run unique fun unique => unique.revision
  cases admission with
  | @single a _ _ queued alone keyed run =>
    subst queued
    exact (enqueue_converged alone keyed run).agrees (after (.enqueue a) (map_snd_eq_ok.mpr ⟨_, run⟩)) keyed
  | @attempt a verdict _ hint queued alone keyed run =>
    subst queued
    have unique' := after (.tryEnqueue a) (map_snd_eq_ok.mpr ⟨_, run⟩)
    simp only [tryEnqueue, keyed, Option.bind_some, seq_eq_ok] at run
    obtain ⟨-, -, run⟩ := run
    split at run
    · rename_i holds
      cases run
      have converged : Converged env a key s.db (id, false) s.db := .held holds rfl
      exact converged.agrees unique' keyed
    · split at run
      · rename_i other fresh _ run'
        have converged := enqueue_converged alone keyed run'
        cases fresh <;> cases run <;> exact converged.agrees unique' keyed
      · split at run <;> cases run
  | @bulk jobs answers q n spec a index _ _ stored given parsed alone keyed answered run =>
    obtain ⟨q', ids, args, stored', specs, same, -, -, registers, -⟩ := enqueueMany_registers reachable run
    cases stored.symm.trans stored'
    obtain ⟨short, own⟩ := List.getElem?_eq_some_iff.mp given
    have short' : n < args.length := specs.length_eq ▸ short
    have parsed' : parseSpec env queue q spec = .ok args[n] := own ▸ specs.get short short'
    have found : args[n]? = some a := by rw [List.getElem?_eq_getElem short', Except.ok.inj (parsed'.symm.trans parsed)]
    have member : (a, (id, created)) ∈ args.zip (answers.map (·.2)) := by
      refine List.mem_iff_getElem?.mpr ⟨n, ?_⟩
      rw [List.getElem?_zip_eq_some, List.getElem?_map, answered]
      exact ⟨found, rfl⟩
    cases registers with
    | keys ordinary answered held =>
      obtain ⟨leads, counted⟩ := answersByName same answered held key
      obtain ⟨held', holder⟩ := leads _ member keyed
      refine ⟨held', fun h holds => ⟨holder h holds, ?_⟩⟩
      rw [if_neg (by simp [holds]), List.countP_eq_zero] at counted
      simpa [keyed] using counted _ member
    | steps w members =>
      have there := members a (List.mem_of_getElem? found)
      rw [alone] at there
      cases there

/-- While the job of a key is live, every admission under the key leads to it and creates nothing: by a single call, a
try or a bulk call, after any run. -/
theorem keyed_admissions_agree (reachable : System.Reachable site allowed s) (first : System.Step site env command s t)
    (permitted : allowed s env command) (admission : KeyAdmission env queue key s.db t.db id created)
    (run : System.Run site allowed t u) (stored : u.db.jobs.get? id = some job) (live : job.status.active = true)
    (again : KeyAdmission env' queue key u.db db' id' created') : id' = id ∧ created' = false := by
  obtain ⟨held, -⟩ := admission.agrees reachable
  have middle : System.Reachable site allowed t := reachable.extend (.step .start permitted first)
  have last : System.Reachable site allowed u := middle.extend run
  obtain ⟨was, there, queued, keyed, -⟩ := (keyHolders_eq_some middle.keysUnique).mp held
  obtain ⟨was', there', same⟩ := run.identity (middle.minted.jobs id (by simp [there])) stored
  cases there.symm.trans there'
  have holds : u.db.keyHolders queue key = some id := by
    refine (keyHolders_eq_some last.keysUnique).mpr ⟨job, stored, ?_, ?_, live⟩
    · exact (congrArg Identity.queue same).trans queued
    · exact (congrArg Identity.idempotencyKey same).trans keyed
  exact (again.agrees last).2 id holds

/-- A second call under the key finds the job that the first created. -/
theorem keyed_admissions_agree_twice : ∃ (s : System) (db db' : Db) (id id' : Uuid) (created : Bool),
    enqueue (.alone .digits 0 9) keyedJob s.db = .ok ((id, true), db) ∧
    enqueue (.alone .digits 1 20) keyedJob db = .ok ((id', created), db') ∧ id' = id ∧ created = false := by
  have played : System.plays .digits [(0, .ensureQueue (some "q") none)] (.installed .digits 0) (fun s =>
      decide (s.xid < 9) && (enqueue (.alone .digits 0 9) keyedJob s.db).toOption.any fun e =>
        e.1.2 && (e.2.jobs.get? e.1.1).any (·.status.active) &&
        (enqueue (.alone .digits 1 20) keyedJob e.2).toOption.isSome) = true := by
    decide +kernel
  obtain ⟨s, run, there⟩ := System.plays_run anyCall played fun _ _ _ => trivial
  obtain ⟨early, there⟩ := (Bool.and_eq_true _ _).mp there
  obtain ⟨⟨⟨id, created⟩, db⟩, call, there⟩ := (Option.any_eq_true _ _).mp there
  simp only [Bool.and_eq_true] at there
  obtain ⟨⟨rfl, live⟩, again⟩ := there
  obtain ⟨job, stored, live⟩ := (Option.any_eq_true _ _).mp live
  obtain ⟨⟨⟨id', created⟩, db'⟩, second⟩ := Option.isSome_iff_exists.mp again
  replace call := toOption_eq_some.mp call
  replace second := toOption_eq_some.mp second
  have step : System.Step .digits (.alone .digits 0 9) (.enqueue keyedJob) s ⟨db, 0, 9, s.admitted ++ newJobs s.db db⟩ :=
    .commit rfl (of_decide_eq_true early) (map_snd_eq_ok.mpr ⟨_, call⟩)
  have agree := keyed_admissions_agree ⟨0, run⟩ step trivial (.single rfl rfl rfl call) .start stored live
    (.single rfl rfl rfl second)
  exact ⟨s, db, db', id, id', created, call, second, agree⟩

end Admissions

end Taskq
