import Taskq.Invariants.Places
import Taskq.Lifecycle.Targets

/-! Every call takes as many places of a workflow as it adds members, so that the counter is the number of members ever
admitted. -/
namespace Taskq
open Relational

variable {env : Env} {db db' : Db} {w : Uuid}

section Bulk

variable {q : Queue} {queue : String} {workflow : Option (Uuid × Workflow)} {slots slots' : List BulkSlot} {slot : BulkSlot}

/-- No live job has the key of a slot without an answer. -/
def Unheld (db : Db) (slots : List BulkSlot) : Prop :=
  ∀ slot ∈ slots, slot.answer = none → ∀ key, slot.args.idempotencyKey = some key →
    keyHolder db.toCore slot.args.queue key = none

theorem insertJob_unclashing {id : Uuid} {row : JobRow} {answer : Option Db} (run : insertJob env id row db = .ok answer)
    (free : idemClash db.toCore id row = false) : ∃ inserted, answer = some inserted := by
  simp only [insertJob, seq_eq_ok, free, Bool.false_eq_true, if_false] at run
  obtain ⟨-, -, _, -, _, -, _, -, _, -, _, -, _, -, finish⟩ := run
  exact ⟨_, (Except.ok.inj finish).symm⟩

/-- A key without a holder does not clash. -/
theorem idemClash_of_free {id : Uuid} {row : JobRow} {key : String} (keyed : row.idempotencyKey = some key)
    (free : keyHolder db.toCore row.queue key = none) : idemClash db.toCore id row = false := by
  have none' : (db.jobs.select fun other j => other ≠ id ∧ j.status.active ∧ j.queue = row.queue ∧
      j.idempotencyKey = row.idempotencyKey) = [] := by
    refine List.eq_nil_iff_forall_not_mem.mpr ?_
    rintro ⟨other, j⟩ member
    obtain ⟨stored, chosen⟩ := Table.mem_select.mp member
    obtain ⟨-, active, there, same⟩ := of_decide_eq_true chosen
    have ended := keyHolder_eq_none.mp free other j stored there (same.trans keyed)
    rw [active] at ended
    cases ended
  unfold idemClash
  rw [none']
  simp

/-- A slot whose key is free is inserted. -/
theorem Unheld.inserted (unheld : Unheld db slots) (member : slot ∈ slots) (open' : slot.answer = none)
    {answer : Option Db} (run : insertJob env slot.id (slot.row env q workflow) db = .ok answer) :
    ∃ inserted, answer = some inserted := by
  refine insertJob_unclashing run ?_
  have keys : (slot.row env q workflow).idempotencyKey = slot.args.idempotencyKey := rfl
  cases keyed : slot.args.idempotencyKey with
  | none => simp [idemClash, keys, keyed]
  | some key => exact idemClash_of_free (keys.trans keyed) (unheld slot member open' key keyed)

/-- A row with another key leaves the keys of the slots free. -/
theorem Unheld.after {id : Uuid} {row : JobRow} (unheld : Unheld db slots)
    (run : insertJob env id row db = .ok (some db')) (apart : ∀ slot ∈ slots, ∀ key, slot.args.idempotencyKey = some key →
      row.idempotencyKey ≠ some key) : Unheld db' slots := by
  obtain ⟨job, counts, counters, same, -, -, -, -, -, rfl⟩ := insertJob_frame run
  intro slot member open' key keyed
  refine keyHolder_eq_none.mpr fun other j stored => ?_
  rw [Table.get?_put] at stored
  split_ifs at stored
  · cases stored
    intro _ own
    exact absurd ((congrArg JobRow.idempotencyKey same).symm.trans own) (apart slot member key keyed)
  · exact keyHolder_eq_none.mp (unheld slot member open' key keyed) other j stored

/-- The slots that are to be inserted. -/
def openSlots (slots : List BulkSlot) : ℕ := slots.countP (·.answer.isNone)

/-- The set-based insert of workflow slots leaves none over: it adds a member for each. -/
theorem insertSlots_members (run : insertSlots env q workflow slots db = .ok (slots', db')) (unheld : Unheld db slots)
    (distinct : (slots.filterMap (·.args.idempotencyKey)).Nodup) (given : ∀ slot ∈ slots, slot.args.workflowId = some w) :
    (∀ slot ∈ slots', slot.answer.isSome = true) ∧
      (∀ v, placesOf db'.toCore v = placesOf db.toCore v ∧
        (membersOf db'.toCore v : ℤ) = membersOf db.toCore v + if v = w then (openSlots slots : ℤ) else 0) ∧
      ∀ id job, db.jobs.get? id = some job → db'.jobs.get? id = some job := by
  induction slots generalizing db slots' with
  | nil =>
    cases run
    exact ⟨by simp, fun v => ⟨rfl, by simp [openSlots]⟩, fun _ _ here => here⟩
  | cons slot slots ih =>
    have distinct' : (slots.filterMap (·.args.idempotencyKey)).Nodup :=
      distinct.sublist ((List.sublist_cons_self slot slots).filterMap _)
    have given' : ∀ s ∈ slots, s.args.workflowId = some w := fun s member => given s (by simp [member])
    unfold insertSlots at run
    split at run
    · rename_i answered
      obtain ⟨⟨rest, last⟩, loop, finish⟩ := seq_eq_ok.mp run
      cases finish
      obtain ⟨all, counts, rows⟩ := ih loop (fun s member => unheld s (by simp [member])) distinct' given'
      have none' : slot.answer.isNone = false := by simpa using answered
      refine ⟨List.forall_mem_cons.mpr ⟨answered, all⟩, ?_, rows⟩
      simpa [openSlots, none'] using counts
    · rename_i unanswered
      have open' : slot.answer = none := by simpa using unanswered
      obtain ⟨answer, insert, run⟩ := seq_eq_ok.mp run
      obtain ⟨inserted, rfl⟩ := unheld.inserted (by simp) open' insert
      obtain ⟨⟨rest, last⟩, loop, finish⟩ := seq_eq_ok.mp run
      cases finish
      have apart : ∀ s ∈ slots, ∀ key, s.args.idempotencyKey = some key →
          (slot.row env q workflow).idempotencyKey ≠ some key := by
        intro s member key keyed own
        have own : slot.args.idempotencyKey = some key := own
        simp only [List.filterMap_cons, own] at distinct
        exact (List.nodup_cons.mp distinct).1 (List.mem_filterMap.mpr ⟨s, member, keyed⟩)
      have unheld' : Unheld inserted slots := Unheld.after (fun s member => unheld s (by simp [member])) insert apart
      obtain ⟨all, counts, rows⟩ := ih loop unheld' distinct' given'
      refine ⟨List.forall_mem_cons.mpr ⟨rfl, all⟩, fun v => ?_, fun id job here => rows id job (insertJob_rows insert here)⟩
      obtain ⟨still, more⟩ := insertJob_places insert v
      have joined : joins (slot.row env q workflow) v = if v = w then 1 else 0 := by
        have member : (slot.row env q workflow).workflowId = some w := given slot (by simp)
        simp [joins, one, member, eq_comm]
      have one' : openSlots (slot :: slots) = openSlots slots + 1 := by simp [openSlots, open']
      refine ⟨(counts v).1.trans still, ?_⟩
      rw [(counts v).2, more, joined, one']
      split_ifs
      · push_cast
        ring
      · simp

/-- With an answer for every slot there is nothing left to insert. -/
theorem convergeSlots_over (answered : ∀ slot ∈ slots, slot.answer.isSome = true) :
    convergeSlots env q workflow slots db = .ok (slots, db) := by
  induction slots generalizing db with
  | nil => rfl
  | cons slot slots ih =>
    simp only [convergeSlots, answerSlot, answered slot (by simp), if_true, bind, Except.bind,
      ih fun s member => answered s (by simp [member])]

/-- The slots of a bulk call join nothing, or one workflow, and then no key of theirs is held. -/
inductive Resolutions (db : Db) (slots : List BulkSlot) : Option (Uuid × Workflow) → Prop
  | alone (ordinary : ∀ slot ∈ slots, slot.args.workflowId = none) : Resolutions db slots none
  | members {w : Uuid} {r : Workflow} (given : ∀ slot ∈ slots, slot.args.workflowId = some w) (unheld : Unheld db slots)
      (distinct : (slots.filterMap (·.args.idempotencyKey)).Nodup) : Resolutions db slots (some (w, r))

theorem resolveSlots_resolutions {v : Option Uuid} {start : Db}
    (run : resolveSlots env queue slots db = .ok (workflow, slots'))
    (parsed : ∀ slot ∈ slots, Parsed queue v start db slot) : Resolutions db slots' workflow := by
  unfold resolveSlots at run
  split at run
  · rename_i free
    cases run
    refine .alone fun slot member => ?_
    obtain ⟨head, tail, rfl⟩ := List.exists_cons_of_ne_nil (List.ne_nil_of_mem member)
    rw [(parsed slot member).workflow, ← (parsed head (by simp)).workflow]
    simpa using free
  · rename_i w named
    simp only [seq_eq_ok, ensure_eq_ok] at run
    obtain ⟨-, -, -, distinct, run⟩ := run
    split at run
    · cases run
    · rename_i row stored
      simp only [seq_eq_ok] at run
      obtain ⟨-, -, replayed, replay, finish⟩ := run
      cases finish
      have replays := mapM_replaySlot replay
      have args : slots'.map (·.args) = slots.map (·.args) := by
        have same : List.Forall₂ (fun slot slot' : BulkSlot => slot'.args = slot.args) slots slots' :=
          replays.imp fun _ _ step => (replaySlot_eq_ok step).1
        clear replay replays parsed named distinct
        induction same with
        | nil => rfl
        | cons one _ ih => simp [one, ih]
      have keys : slots'.filterMap (·.args.idempotencyKey) = slots.filterMap (·.args.idempotencyKey) := by
        have through (l : List BulkSlot) : l.filterMap (·.args.idempotencyKey) =
            (l.map (·.args)).filterMap EnqueueArgs.idempotencyKey := by
          rw [List.filterMap_map]
          rfl
        rw [through, through, args]
      refine .members (fun slot' member => ?_) (fun slot' member open' key keyed => ?_) (keys ▸ distinct)
      · obtain ⟨slot, present, step⟩ := forall₂_right replays member
        obtain ⟨head, tail, rfl⟩ := List.exists_cons_of_ne_nil (List.ne_nil_of_mem present)
        rw [(replaySlot_eq_ok step).1, (parsed slot present).workflow, ← (parsed head (by simp)).workflow]
        simpa using named
      · obtain ⟨slot, present, step⟩ := forall₂_right replays member
        unfold replaySlot at step
        split at step
        · obtain ⟨-, -, finish⟩ := seq_eq_ok.mp step
          cases finish
          cases open'
        · simp only [seq_eq_ok, ensure_eq_ok] at step
          obtain ⟨-, -, -, free, finish⟩ := step
          cases finish
          simpa [keyed] using free

theorem enqueueMany_placed {jobs : Option Jsonb} {answer : List (ℤ × Uuid × Bool)}
    (run : enqueueMany env queue jobs db = .ok (answer, db')) (within : WithinLimits db.toCore) :
    Unjoined db db' ∨ Balanced db db' := by
  simp only [enqueueMany, seq_eq_ok] at run
  obtain ⟨-, -, -, -, run⟩ := run
  split at run
  · cases run
  simp only [seq_eq_ok] at run
  obtain ⟨⟨slots, parsedDb⟩, parse, ⟨workflow, resolved⟩, resolve, -, -, reserved, reserve,
    ⟨inserted, insertedDb⟩, insert, ⟨converged, convergedDb⟩, converge, finish⟩ := run
  cases finish
  obtain ⟨rfl, -, w, -, parsed⟩ := parseSpecs_eq_ok parse
  obtain ⟨events, frame⟩ := enqueuedEvents_frame env (createdJobs converged) convergedDb
  have last : ∀ d, notifyCreated env queue ‹_› (createdJobs converged) (enqueuedEvents env (createdJobs converged) convergedDb) = d →
      d.jobs = convergedDb.jobs ∧ d.memberCounts = convergedDb.memberCounts := by
    rintro d rfl
    rw [frame, notifyCreated]
    split_ifs <;> exact ⟨rfl, rfl⟩
  obtain ⟨jobs', counts'⟩ := last _ rfl
  have resolution := resolveSlots_resolutions resolve parsed
  cases resolution with
  | alone ordinary =>
    left
    cases reserve
    have one : ∀ slot ∈ resolved, slot.answer = none → ∀ {d e},
        insertJob env slot.id (slot.row env ‹_› none) d = .ok (some e) → Unjoined d e :=
      fun slot member _ {d e} run => insertJob_unjoined run (ordinary slot member)
    obtain ⟨first, known⟩ := insertSlots_rule insert Unjoined.refl Unjoined.trans one
    have second := convergeSlots_rule converge Unjoined.refl Unjoined.trans
      fun slot member unanswered => one slot (known slot member unanswered) unanswered
    refine Unjoined.trans ?_ (first.trans (second.trans (.aside jobs' counts')))
    exact .aside rfl rfl
  | @members w r given unheld distinct =>
    right
    have places : reserved.jobs = db.jobs ∧ ∀ v, placesOf reserved.toCore v = placesOf db.toCore v +
        if v = w then (openSlots resolved : ℤ) else 0 := by
      unfold reserveSlots at reserve
      dsimp only at reserve
      split_ifs at reserve with some'
      · have taken := reserveWorkflowMembers_places reserve within
        exact taken
      · cases reserve
        have zero : openSlots resolved = 0 := Nat.eq_zero_of_not_pos some'
        exact ⟨rfl, fun v => by simp [zero, placesOf]⟩
    have unheld' : Unheld reserved resolved := fun slot member open' key keyed =>
      keyHolder_eq_none.mpr fun other j stored => keyHolder_eq_none.mp (unheld slot member open' key keyed) other j
        (places.1 ▸ stored)
    obtain ⟨answered, counts, rows⟩ := insertSlots_members insert unheld' distinct given
    rw [convergeSlots_over answered] at converge
    cases converge
    refine Balanced.trans ⟨fun v => ?_, fun id job here => ⟨job, rows id job (places.1 ▸ here), rfl⟩⟩ (.aside jobs' counts')
    have same : membersOf reserved.toCore v = membersOf db.toCore v := by simp only [membersOf, places.1]
    rw [unfilled, unfilled, (counts v).1, (counts v).2, places.2 v, same]
    ring

end Bulk

section Completion

variable {parentId jobId attemptId : Uuid} {parent job : Job} {specs : List Jsonb}

/-- No job has the key of one of these continuations. -/
def StepsFree (db : Db) (parentId : Uuid) (specs : List Jsonb) : Prop :=
  ∀ spec ∈ specs, ∀ id job, db.jobs.get? id = some job → job.idempotencyKey ≠ some (chainPrefix parentId ++ stepOf spec)

/-- A followup whose key is free is created. -/
theorem FollowupInserted.creates {row : JobRow} {answer : Uuid × Bool} {key : String}
    (inserted : FollowupInserted env row db answer db') (keyed : row.idempotencyKey = some key)
    (free : ∀ id job, db.jobs.get? id = some job → job.idempotencyKey ≠ some key) :
    (∀ v, placesOf db'.toCore v = placesOf db.toCore v ∧
      (membersOf db'.toCore v : ℤ) = membersOf db.toCore v + joins row v) ∧
    (∀ id job, db.jobs.get? id = some job → db'.jobs.get? id = some job) ∧
      ∀ id job, db'.jobs.get? id = some job → db.jobs.get? id = some job ∨ job.idempotencyKey = some key := by
  cases inserted with
  | held holder =>
    obtain ⟨stored, -, same, -⟩ := keyHolder_eq_some holder
    rw [keyed] at same
    exact absurd same (free _ _ stored)
  | @created n made _ events notices run after =>
    subst after
    refine ⟨fun v => insertJob_places run v, fun id job here => insertJob_rows run here, fun id job here => ?_⟩
    obtain ⟨new, _, _, rfl, -, -, -, -, -, rfl⟩ := insertJob_frame run
    simp only [Table.get?_put] at here
    split_ifs at here
    · cases here
      exact .inr keyed
    · exact .inl here

theorem enqueueFollowups_members {queue : String} {index : ℤ}
    (run : enqueueFollowups env parentId queue specs index db = .ok db') (stored : db.jobs.get? parentId = some parent)
    (distinct : (specs.map stepOf).Nodup) (free : StepsFree db parentId specs) :
    (∀ v, placesOf db'.toCore v = placesOf db.toCore v ∧ (membersOf db'.toCore v : ℤ) =
      membersOf db.toCore v + if parent.workflowId = some v then (specs.countP isMember : ℤ) else 0) ∧
      ∀ id job, db.jobs.get? id = some job → db'.jobs.get? id = some job := by
  induction specs generalizing db index with
  | nil =>
    cases run
    exact ⟨fun v => ⟨rfl, by simp⟩, fun _ _ here => here⟩
  | cons spec specs ih =>
    simp only [enqueueFollowups, seq_eq_ok] at run
    obtain ⟨⟨answer, mid⟩, first, rest⟩ := run
    obtain ⟨row, shape, inserted⟩ := enqueueFollowup_inserted first stored
    obtain ⟨f, q, parse, -, -, rfl⟩ := shape.parsed
    obtain ⟨-, step, member⟩ := parseFollowup_eq_ok parse
    have keyed : (f.row env q parentId parent.toJobRow
        (if f.member then some (f.intentHash env q parentId parent.toJobRow) else none)).idempotencyKey =
        some (chainPrefix parentId ++ stepOf spec) := by
      rw [Followup.row, step]
      rfl
    obtain ⟨fresh, distinct'⟩ := List.nodup_cons.mp distinct
    obtain ⟨counts, rows, back⟩ := inserted.creates keyed (free spec (by simp))
    have free' : StepsFree mid parentId specs := by
      intro other there id job here own
      obtain before | same := back id job here
      · exact free other (by simp [there]) id job before own
      · rw [same] at own
        obtain ⟨-, steps⟩ := chainPrefix_inj (Option.some.inj own)
        exact fresh (List.mem_map.mpr ⟨other, there, steps.symm⟩)
    obtain ⟨counts', rows'⟩ := ih rest (rows _ _ stored) distinct' free'
    refine ⟨fun v => ⟨(counts' v).1.trans (counts v).1, ?_⟩, fun id job here => rows' id job (rows id job here)⟩
    have joined : joins (f.row env q parentId parent.toJobRow
        (if f.member then some (f.intentHash env q parentId parent.toJobRow) else none)) v =
        if parent.workflowId = some v then (if isMember spec then 1 else 0) else 0 := by
      simp only [joins, one, Followup.row, member, decide_eq_true_eq]
      split_ifs <;> simp_all
    rw [(counts' v).2, (counts v).2, joined, List.countP_cons]
    split_ifs
    · push_cast
      ring
    · simp
    · simp

/-- A completion takes a place for every member among its followups. -/
theorem CompletionRun.balanced (run : CompletionRun env jobId job specs db db') (ok : Sound db.toCore)
    (within : WithinLimits db.toCore) (free : ∀ step id other, db.jobs.get? id = some other →
      other.idempotencyKey ≠ some (chainPrefix jobId ++ step)) : Balanced db db' := by
  obtain ⟨taken, settle, follow, kept, continues, distinct⟩ := run
  rename_i reserved mid settled
  have places : reserved.jobs = db.jobs ∧ ∀ v, placesOf reserved.toCore v = placesOf db.toCore v +
      if job.workflowId = some v then (specs.countP isMember : ℤ) else 0 := by
    unfold reserveFollowups at taken
    split at taken
    · rename_i w member
      split_ifs at taken with some'
      · obtain ⟨jobs, places⟩ := reserveWorkflowMembers_places taken within
        refine ⟨jobs, fun v => (places v).trans ?_⟩
        simp [member, eq_comm]
      · cases taken
        have zero : specs.countP isMember = 0 := by simpa using some'
        exact ⟨rfl, fun v => by simp [zero]⟩
    · rename_i alone
      cases taken
      exact ⟨rfl, fun v => by simp [alone]⟩
  have reserve := reserveFollowups_path env taken
  have settles : Balanced reserved mid := .of_steps settle.steps (ok.steps reserve.steps) (by simp [changesOf, promotions])
  have free' : StepsFree mid jobId specs := by
    intro spec _ id other here
    obtain ⟨was, there, same⟩ := settle.steps.job id (C := fun i j => j.identity = i.identity) (fun _ => rfl)
      (fun first second => second.trans first) (by simp [changesOf, promotions]) (fun _ kept _ => kept) here
    rw [show other.idempotencyKey = was.idempotencyKey from congrArg Identity.idempotencyKey same]
    exact free _ id was (places.1 ▸ there)
  obtain ⟨counts, rows⟩ := enqueueFollowups_members follow continues.stored distinct free'
  have member : settled.workflowId = job.workflowId := congrArg Identity.workflowId kept
  refine ⟨fun v => ?_, fun id was here => ?_⟩
  · have same : membersOf reserved.toCore v = membersOf db.toCore v := by simp only [membersOf, places.1]
    have moved := settles.same v
    simp only [unfilled, same, places.2 v] at moved
    simp only [unfilled, (counts v).1, (counts v).2, member]
    linarith
  · obtain ⟨job', here', same⟩ := settles.rows id was (places.1 ▸ here)
    exact ⟨job', rows id job' here', same⟩

end Completion

section Fire

variable {id decision : Uuid} {s : Schedule} {claim : ScheduleClaim} {a : FireArgs} {answer : ActionResult}

theorem janitor_unjoined {report : JanitorReport} (run : janitor env db = .ok (report, db')) (ok : Sound db.toCore) :
    Unjoined db db' := by
  obtain ⟨mid, registers, -, rfl⟩ := janitor_cases run
  have deletes : Unjoined db mid := .of_steps registers.trail.steps ok (by simp [deletions])
  exact deletes.trans (.aside rfl rfl)

/-- A fired occurrence enqueues outside workflows, or cleans up. -/
theorem performFired_unjoined {occurrence : Uuid} {due : Time} {late : ℤ} {job : Option Uuid}
    {outcome : OccurrenceOutcome} (run : performFired env id s.toScheduleRow claim occurrence due late outcome db = .ok (job, db'))
    (ok : Sound db.toCore) : Unjoined db db' := by
  unfold performFired performOccurrence at run
  split at run
  · split at run
    · simp only [seq_eq_ok] at run
      obtain ⟨-, -, ⟨report, last⟩, clean, finish⟩ := run
      cases finish
      exact janitor_unjoined clean ok
    · simp only [seq_eq_ok] at run
      obtain ⟨args, made, ⟨⟨created, fresh⟩, last⟩, enqueued, finish⟩ := run
      cases finish
      exact (enqueue_enqueued enqueued).unjoined (occurrenceArgs_eq_ok made).2.1
  · cases run
    exact .refl _

theorem fireOccurrence_unjoined {due : Time} {counts counts' : FireCounts}
    (run : fireOccurrence env id s.toScheduleRow claim decision due counts db = .ok (counts', db')) (ok : Sound db.toCore) :
    Unjoined db db' := by
  unfold fireOccurrence at run
  split at run
  · cases run
    exact .refl _
  · simp only [newUuid, seq_eq_ok] at run
    obtain ⟨late, -, ⟨job, last⟩, perform, finish⟩ := run
    cases finish
    have sound : Sound { db with nextUuid := db.nextUuid + 1 }.toCore := ok.step (.mint _)
    have performed := performFired_unjoined perform sound
    refine Unjoined.trans ?_ (performed.trans (.aside rfl rfl))
    exact .aside rfl rfl

theorem fireOccurrences_unjoined {dues : List Time} {counts counts' : FireCounts}
    (run : fireOccurrences env id s.toScheduleRow claim decision dues counts db = .ok (counts', db')) (ok : Sound db.toCore) :
    Unjoined db db' := by
  induction dues generalizing db counts with
  | nil =>
    cases run
    exact .refl _
  | cons due dues ih =>
    simp only [fireOccurrences, seq_eq_ok] at run
    obtain ⟨⟨counted, fired⟩, first, rest⟩ := run
    have sound := ok.steps (fireOccurrence_trail first le_rfl).steps
    exact (fireOccurrence_unjoined first ok).trans (ih rest sound)

theorem fireSchedule_unjoined (run : fireSchedule env a db = .ok (answer, db')) (ok : Sound db.toCore) :
    Unjoined db db' := by
  have minted : Unjoined db { db with nextUuid := db.nextUuid + 1 } := .aside rfl rfl
  simp only [fireSchedule, newUuid, seq_eq_ok] at run
  obtain ⟨-, -, -, -, run⟩ := run
  split at run
  · cases run
  · split at run
    · cases run
      exact minted
    · split at run
      · cases run
        exact minted
      · simp only [fireUnderClaim, seq_eq_ok] at run
        obtain ⟨outcome, -, ⟨counts, fired⟩, fire, written, write, finish⟩ := run
        cases finish
        obtain ⟨_, -, rfl⟩ := writeSchedule_frame write
        have sound : Sound { db with nextUuid := db.nextUuid + 1 }.toCore := ok.step (.mint _)
        exact minted.trans ((fireOccurrences_unjoined fire sound).trans (.aside rfl rfl))

end Fire

section Calls

variable {command : Command} {site : Site} {allowed : System → Env → Command → Prop} {s : System}

theorem Completes.placed {jobId attemptId : Uuid} {specs : List Jsonb} {answer : SettleResult}
    (completes : Completes env jobId attemptId specs db db' answer) (ok : Sound db.toCore) (within : WithinLimits db.toCore)
    (chains : ChainsSettled db.nextUuid db.toCore) : Unjoined db db' ∨ Balanced db db' := by
  obtain ⟨-, rfl, -⟩ | ⟨job, held, run, -⟩ := completes
  · exact .inl (.refl _)
  · obtain ⟨stored, running, -⟩ := runningJob_eq_some.mp held
    refine .inr (run.balanced ok within fun step id other there keyed => ?_)
    have settled := (chains id other jobId step there keyed).2 job stored
    cases running.symm.trans settled

/-- A call adds as many members as it takes places. -/
theorem Command.exec_placed (run : command.exec env db = .ok db') (ok : Sound db.toCore) (within : WithinLimits db.toCore)
    (chains : ChainsSettled db.nextUuid db.toCore) : Unjoined db db' ∨ Balanced db db' := by
  obtain ⟨F, used, steps⟩ := Command.exec_steps run
  cases command with
  | enqueue =>
    obtain ⟨answer, run⟩ := map_snd_eq_ok.mp run
    exact .inr ((enqueue_enqueued run).balanced within)
  | tryEnqueue =>
    obtain ⟨answer, run⟩ := map_snd_eq_ok.mp run
    obtain rfl | ⟨answer, run⟩ := tryEnqueue_cases run
    · exact .inl (.refl _)
    · exact .inr ((enqueue_enqueued run).balanced within)
  | enqueueMany =>
    obtain ⟨answer, run⟩ := map_snd_eq_ok.mp run
    exact enqueueMany_placed run within
  | finishAdmission =>
    obtain ⟨answer, run⟩ := map_snd_eq_ok.mp run
    obtain ⟨k, id, a, -, -, -, ⟨-, -, -, rfl⟩ | ⟨-, -, args, jobId, mid, linked, -, enters, links, -, rfl⟩⟩ :=
      finishAdmission_cases run
    · exact .inl (.refl _)
    · have entered := (enqueue_enqueued enters).balanced within
      have link : Path env {.change jobId (.link id)} mid linked := updateJob_admits links rfl
      have linked : Balanced mid linked := .of_steps link.steps (ok.steps (enqueue_path enters).steps) (by simp)
      exact .inr (entered.trans (linked.trans (.aside rfl rfl)))
  | completeJob =>
    obtain ⟨answer, run⟩ := map_snd_eq_ok.mp run
    exact (completeJob_completes run).placed ok within chains
  | completeJobWithPolicy =>
    obtain ⟨answer, run⟩ := map_snd_eq_ok.mp run
    exact (completeJobWithPolicy_completes run).placed ok within chains
  | fireSchedule =>
    obtain ⟨answer, run⟩ := map_snd_eq_ok.mp run
    exact .inl (fireSchedule_unjoined run ok)
  | claimJobs | claimJobsWithPolicies =>
    obtain rfl | rfl := used
    · exact .inl (.of_steps steps ok (by simp [starts]))
    · exact .inl (.of_steps steps ok (by simp [reclaims, expiries, dependents]))
  | _ =>
    cases used
    exact .inl (.of_steps steps ok (by simp [idleLabels, changesOf, dependents, sweeps, revocations, reclaims, expiries,
      redrives, promotions, creations, abandons, withdrawals, finalizations, ticks, deletions]))

/-- The jobs that were ever admitted to a workflow. -/
def System.membersEver (s : System) (w : Uuid) : List (Uuid × Job) := s.admitted.filter fun e => e.2.workflowId = some w

/-- The counter of a workflow is the number of members ever admitted. -/
theorem System.Reachable.placed (reachable : System.Reachable site allowed s) (w : Uuid) :
    placesOf s.db.toCore w = (s.membersEver w).length := by
  have both : Sound s.db.toCore ∧ WithinLimits s.db.toCore ∧ (Minted s.db.toCore ∧ ChainsSettled s.db.nextUuid s.db.toCore) ∧
      placesOf s.db.toCore w = (s.membersEver w).length := by
    refine reachable.induction (I := fun s => Sound s.db.toCore ∧ WithinLimits s.db.toCore ∧
      (Minted s.db.toCore ∧ ChainsSettled s.db.nextUuid s.db.toCore) ∧
      placesOf s.db.toCore w = (s.membersEver w).length) (fun now => ?_) fun {t u env command} ih _ next => ?_
    · exact ⟨.installed site now, fun _ _ here => (by cases here), ⟨(Sound.installed site now).minted,
        fun _ _ _ _ here => (by cases here)⟩, rfl⟩
    · obtain ⟨ok, within, ⟨minted, chains⟩, counted⟩ := ih
      obtain ⟨F, -, steps⟩ := next.steps
      refine ⟨ok.steps steps, steps.invariant (fun _ h within => within.step h) within,
        ⟨steps.invariant (fun _ h minted => minted.step h) minted, Command.exec_chains next.exec minted chains⟩, ?_⟩
      have added : placesOf u.db.toCore w = placesOf t.db.toCore w + (entered t.db u.db w).length := by
        obtain unjoined | balanced := Command.exec_placed next.exec ok within chains
        · exact unjoined.entered w
        · exact balanced.entered w
      cases next with
      | commit =>
        rw [added, counted, System.membersEver, System.membersEver, List.filter_append, List.length_append, Nat.cast_add]
        rfl
  exact both.2.2.2

end Calls

end Taskq
