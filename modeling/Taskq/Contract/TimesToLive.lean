import Taskq.Contract.BulkSpecs
import Taskq.Lifecycle.Vouching

/-! The time to live of a job that was admitted without one of its own: whether the default of its queue is on the
row depends on the way in. -/
namespace Taskq
open Relational

variable {env : Env} {db mid db' : Db} {queue : String} {q : Queue} {id : Uuid} {job : Job} {a : EnqueueArgs}

/-- The row waits, and expires by the default of its queue. -/
structure JobRow.LivesBy (q : Queue) (r : JobRow) : Prop where
  waits : unstarted r = true
  expires : r.expiresAt = q.defaultTtlSeconds.map fun ttl => r.scheduledAt + seconds ttl

theorem EnqueueArgs.row_livesBy (bare : a.ttlSeconds = none) (env : Env) (q : Queue) (m : Membership) :
    (a.row env q m).LivesBy q := by
  refine ⟨?_, ?_⟩
  · unfold unstarted EnqueueArgs.row
    dsimp only
    split_ifs <;> rfl
  · simp [EnqueueArgs.row, bare]

theorem enqueue_livesBy (bare : a.ttlSeconds = none) (run : enqueue env a db = .ok ((id, true), db'))
    (here : db'.jobs.get? id = some job) : ∃ q, db.queues.get? job.queue = some q ∧ job.LivesBy q := by
  obtain ⟨-, -, -, ⟨job', q, m, there, row, stored⟩, -⟩ := (enqueue_enqueued run).created_row
  cases there.symm.trans here
  rw [row]
  exact ⟨q, stored, EnqueueArgs.row_livesBy bare env q m⟩

/-- A finish changes neither the times of the job that it admits nor its status. -/
theorem finishAdmission_livesBy {key : Option String} {handle : Option Uuid} {content receipt : Option Jsonb}
    {answer : FinishResult} (run : finishAdmission env queue key handle content receipt db = .ok (answer, db'))
    (created : answer.outcome = .created) (named : answer.jobId = some id) (here : db'.jobs.get? id = some job) :
    ∃ q, db.queues.get? job.queue = some q ∧ job.LivesBy q := by
  obtain ⟨k, key, row, -, -, -, ⟨-, -, rfl, rfl⟩ | ⟨-, -, args, jobId, entered, linked, parsed, enters, links, rfl, rfl⟩⟩ :=
    finishAdmission_cases run
  · cases created
  · cases named
    obtain ⟨-, bare⟩ := parseAdmissionJob_eq_ok parsed
    obtain ⟨-, -, -, ⟨old, -, -, there, -⟩, -⟩ := (enqueue_enqueued enters).created_row
    obtain ⟨q, stored, waits, expires⟩ := enqueue_livesBy bare enters there
    simp only [updateJob, there] at links
    obtain ⟨written, counts, counters, flows, events, same, -, -, rfl⟩ := writeJob_frame links
    cases (Table.get?_put_self _ _ _).symm.trans here
    rw [same]
    exact ⟨q, stored, waits, expires⟩

section Bulk

variable {workflow : Option (Uuid × Workflow)} {slots slots' : List BulkSlot} {slot slot' : BulkSlot}

/-- A slot is kept but for its answer, and a job that it has created has its row. -/
structure Fills (env : Env) (q : Queue) (workflow : Option (Uuid × Workflow)) (db' : Db) (slot slot' : BulkSlot) :
    Prop where
  index : slot'.index = slot.index
  args : slot'.args = slot.args
  created : ∀ j, slot'.answer = some (j, true) → slot.answer = some (j, true) ∨
    ∃ job, db'.jobs.get? j = some job ∧ job.toJobRow = slot.row env q workflow

theorem BulkSlot.row_congr (args : slot'.args = slot.args) (env : Env) (q : Queue)
    (workflow : Option (Uuid × Workflow)) : slot'.row env q workflow = slot.row env q workflow := by
  cases workflow <;> simp only [BulkSlot.row, BulkSlot.membership, args]

theorem Fills.refl (slot : BulkSlot) : Fills env q workflow db' slot slot := ⟨rfl, rfl, fun _ => .inl⟩

theorem Fills.later (fills : Fills env q workflow mid slot slot')
    (kept : ∀ j job, mid.jobs.get? j = some job → db'.jobs.get? j = some job) : Fills env q workflow db' slot slot' :=
  ⟨fills.index, fills.args, fun j answered => (fills.created j answered).imp_right
    fun ⟨job, here, row⟩ => ⟨job, kept j job here, row⟩⟩

theorem Fills.trans {slot'' : BulkSlot} (first : Fills env q workflow db' slot slot')
    (second : Fills env q workflow db' slot' slot'') : Fills env q workflow db' slot slot'' := by
  refine ⟨second.index.trans first.index, second.args.trans first.args, fun j answered => ?_⟩
  obtain before | ⟨job, here, row⟩ := second.created j answered
  · exact first.created j before
  · exact .inr ⟨job, here, row.trans (BulkSlot.row_congr first.args env q workflow)⟩

theorem insertJob_keeps {r : JobRow} (run : insertJob env id r db = .ok (some db')) :
    (∀ j job, db.jobs.get? j = some job → db'.jobs.get? j = some job) ∧
      ∃ job, db'.jobs.get? id = some job ∧ job.toJobRow = r := by
  obtain ⟨job, _, _, row, -, -, fresh, -, -, rfl⟩ := insertJob_frame run
  refine ⟨fun j old stored => ?_, job, Table.get?_put_self _ _ _, row⟩
  have apart : j ≠ id := fun same => nomatch (same ▸ stored).symm.trans fresh
  exact (Table.get?_put_of_ne _ _ apart).trans stored

theorem insertSlots_fills (run : insertSlots env q workflow slots db = .ok (slots', db')) :
    (∀ j job, db.jobs.get? j = some job → db'.jobs.get? j = some job) ∧
      List.Forall₂ (Fills env q workflow db') slots slots' := by
  induction slots generalizing db slots' with
  | nil =>
    cases run
    exact ⟨fun _ _ here => here, .nil⟩
  | cons slot slots ih =>
    unfold insertSlots at run
    split at run
    · obtain ⟨⟨tail, last⟩, loop, finish⟩ := seq_eq_ok.mp run
      cases finish
      obtain ⟨kept, rest⟩ := ih loop
      exact ⟨kept, .cons (.refl slot) rest⟩
    · obtain ⟨inserted, insert, run⟩ := seq_eq_ok.mp run
      cases inserted with
      | some inserted =>
        obtain ⟨⟨tail, last⟩, loop, finish⟩ := seq_eq_ok.mp run
        cases finish
        obtain ⟨kept, rest⟩ := ih loop
        obtain ⟨first, job, here, row⟩ := insertJob_keeps insert
        refine ⟨fun j old stored => kept j old (first j old stored), .cons ⟨rfl, rfl, fun j answered => ?_⟩ rest⟩
        cases answered
        exact .inr ⟨job, kept _ job here, row⟩
      | none =>
        obtain ⟨⟨tail, last⟩, loop, finish⟩ := seq_eq_ok.mp run
        cases finish
        obtain ⟨kept, rest⟩ := ih loop
        exact ⟨kept, .cons (.refl slot) rest⟩

theorem convergeSlot_fills {tries : ℕ} {answer : Uuid × Bool}
    (run : convergeSlot env q workflow slot tries db = .ok (answer, db')) :
    (∀ j job, db.jobs.get? j = some job → db'.jobs.get? j = some job) ∧
      (answer.2 = true → ∃ job, db'.jobs.get? answer.1 = some job ∧ job.toJobRow = slot.row env q workflow) := by
  induction tries with
  | zero => cases run
  | succ tries ih =>
    unfold convergeSlot at run
    split at run
    · obtain ⟨-, -, finish⟩ := seq_eq_ok.mp run
      cases finish
      exact ⟨fun _ _ here => here, fun made => by cases made⟩
    · split at run
      · obtain ⟨-, -, finish⟩ := seq_eq_ok.mp run
        cases finish
        exact ⟨fun _ _ here => here, fun made => by cases made⟩
      · obtain ⟨inserted, insert, run⟩ := seq_eq_ok.mp run
        cases inserted with
        | some inserted =>
          cases run
          obtain ⟨kept, made⟩ := insertJob_keeps insert
          exact ⟨kept, fun _ => made⟩
        | none => exact ih run

theorem convergeSlots_fills (run : convergeSlots env q workflow slots db = .ok (slots', db')) :
    (∀ j job, db.jobs.get? j = some job → db'.jobs.get? j = some job) ∧
      List.Forall₂ (Fills env q workflow db') slots slots' := by
  induction slots generalizing db slots' with
  | nil =>
    cases run
    exact ⟨fun _ _ here => here, .nil⟩
  | cons slot slots ih =>
    simp only [convergeSlots, seq_eq_ok] at run
    obtain ⟨⟨answered, mid⟩, first, ⟨rest, last⟩, loop, finish⟩ := run
    cases finish
    obtain ⟨kept, fills⟩ := ih loop
    unfold answerSlot at first
    split at first
    · cases first
      exact ⟨kept, .cons (.refl slot) fills⟩
    · obtain ⟨⟨⟨j, made⟩, converged⟩, converge, done⟩ := seq_eq_ok.mp first
      cases done
      obtain ⟨before, created⟩ := convergeSlot_fills converge
      refine ⟨fun j old stored => kept j old (before j old stored), .cons ⟨rfl, rfl, fun j' answered => ?_⟩ fills⟩
      cases answered
      obtain ⟨job, here, row⟩ := created rfl
      exact .inr ⟨job, kept _ job here, row⟩

/-- Every slot comes from the spec at its place. -/
theorem parseSpecs_places {specs : List Jsonb} {index : ℤ} {mode : Option (Option Uuid)}
    (run : parseSpecs env queue q specs index mode db = .ok (slots, db')) :
    ∀ slot ∈ slots, slot.answer = none ∧ ∃ n spec, slot.index = index + (n : ℕ) ∧ specs[n]? = some spec ∧
      parseSpec env queue q spec = .ok slot.args := by
  induction specs generalizing db index mode slots with
  | nil =>
    cases run
    intro slot member
    cases member
  | cons spec specs ih =>
    simp only [parseSpecs, newUuid, seq_eq_ok, mapError_eq_ok] at run
    obtain ⟨-, -, args, parse, -, -, -, -, ⟨rest, last⟩, loop, finish⟩ := run
    cases finish
    intro slot member
    obtain rfl | later := List.mem_cons.mp member
    · exact ⟨rfl, 0, spec, by simp, rfl, parse⟩
    · obtain ⟨unanswered, n, other, place, given, parsed⟩ := ih loop slot later
      refine ⟨unanswered, n + 1, other, ?_, given, parsed⟩
      rw [place]
      push_cast
      ring

theorem resolveSlots_fills (run : resolveSlots env queue slots db = .ok (workflow, slots'))
    (open' : ∀ slot ∈ slots, slot.answer = none) : ∀ slot' ∈ slots', ∃ slot ∈ slots, slot'.index = slot.index ∧
      slot'.args = slot.args ∧ ∀ j, slot'.answer ≠ some (j, true) := by
  unfold resolveSlots at run
  split at run
  · cases run
    exact fun slot member => ⟨slot, member, rfl, rfl, fun j => by simp [open' slot member]⟩
  · simp only [seq_eq_ok] at run
    obtain ⟨-, -, -, -, run⟩ := run
    split at run
    · cases run
    · simp only [seq_eq_ok] at run
      obtain ⟨-, -, replayed, replay, finish⟩ := run
      cases finish
      intro slot' member
      obtain ⟨slot, present, step⟩ := forall₂_right (mapM_replaySlot replay) member
      refine ⟨slot, present, ?_⟩
      unfold replaySlot at step
      split at step
      · obtain ⟨-, -, done⟩ := seq_eq_ok.mp step
        cases done
        exact ⟨rfl, rfl, fun j => by simp⟩
      · simp only [seq_eq_ok] at step
        obtain ⟨-, -, -, -, done⟩ := step
        cases done
        exact ⟨rfl, rfl, fun j => by simp [open' slot' present]⟩

/-- A job of a bulk call whose spec names no time to live. -/
theorem enqueueMany_livesBy {specs : Option Jsonb} {answer : List (ℤ × Uuid × Bool)} {index : ℤ} {spec : Jsonb}
    (run : enqueueMany env queue specs db = .ok (answer, db')) (created : (index, id, true) ∈ answer)
    (given : ((specs.map (·.elements)).getD [])[(index - 1).toNat]? = some spec)
    (bare : spec.fieldText? "ttl_seconds" = none) (here : db'.jobs.get? id = some job) :
    ∃ q, db.queues.get? job.queue = some q ∧ job.LivesBy q := by
  simp only [enqueueMany, seq_eq_ok] at run
  obtain ⟨-, -, -, -, run⟩ := run
  split at run
  · cases run
  · rename_i q stored
    simp only [seq_eq_ok] at run
    obtain ⟨⟨slots, parsedDb⟩, parse, ⟨workflow, resolved⟩, resolve, -, -, reserved, reserve,
      ⟨inserted, insertedDb⟩, insert, ⟨converged, convergedDb⟩, converge, finish⟩ := run
    cases finish
    have places := parseSpecs_places parse
    obtain ⟨kept, second⟩ := convergeSlots_fills converge
    obtain ⟨slot'', member, answered⟩ := List.mem_filterMap.mp created
    obtain ⟨⟨j, made⟩, filled, same⟩ := Option.map_eq_some_iff.mp answered
    cases same
    obtain ⟨slot', present', fills'⟩ := forall₂_right second member
    obtain ⟨slot, present, fills⟩ := forall₂_right (insertSlots_fills insert).2 present'
    have both := (fills.later kept).trans fills'
    obtain ⟨source, origin, index', args, unanswered⟩ :=
      resolveSlots_fills resolve (fun slot member => (places slot member).1) slot present
    obtain ⟨-, n, other, place, found, parsed⟩ := places source origin
    have spot : (slot''.index - 1).toNat = n := by
      rw [both.index, index', place]
      simp
    cases (spot ▸ given).symm.trans found
    obtain before | ⟨row, there, shape⟩ := both.created j filled
    · exact absurd before (unanswered j)
    · rw [bulkEnd_jobs] at here
      cases there.symm.trans here
      obtain ⟨reads, ttl⟩ := parseSpec_reads parsed
      rw [← args, bare] at ttl
      rw [shape]
      refine ⟨q, ?_, EnqueueArgs.row_livesBy (Option.isNone_iff_eq_none.mp (by simpa using ttl)) env q _⟩
      rw [show (slot.row env q workflow).queue = queue by
        rw [← args] at reads; exact congrArg EnqueueArgs.queue reads]
      exact stored

end Bulk

section Fire

variable {s : ScheduleRow} {claim : ScheduleClaim} {decision : Uuid}

theorem occurrenceArgs_bare {occurrence : Uuid} {due : Time} {late : ℤ}
    (made : occurrenceArgs env id s claim occurrence due late = .ok a) : a.ttlSeconds = none := by
  simp only [occurrenceArgs, seq_eq_ok] at made
  obtain ⟨_, -, _, -, _, -, _, -, _, -, finish⟩ := made
  cases finish
  rfl

theorem fireOccurrence_livesBy {due : Time} {counts counts' : FireCounts}
    (run : fireOccurrence env id s claim decision due counts db = .ok (counts', db')) {j : Uuid}
    (absent : db.jobs.get? j = none) (here : db'.jobs.get? j = some job) :
    ∃ q, db.queues.get? job.queue = some q ∧ job.LivesBy q := by
  unfold fireOccurrence at run
  split at run
  · cases run
    cases absent.symm.trans here
  · simp only [newUuid, seq_eq_ok] at run
    obtain ⟨late, -, ⟨made, last⟩, perform, finish⟩ := run
    cases finish
    unfold performFired performOccurrence at perform
    split at perform
    · split at perform
      · simp only [seq_eq_ok] at perform
        obtain ⟨-, -, ⟨report, cleaned⟩, clean, done⟩ := perform
        cases done
        obtain ⟨mid, registers, -, rfl⟩ := janitor_cases clean
        have gone : mid.jobs.get? j = none := registers.trail.steps.absent (fun p victims => by
          obtain ⟨victim, same⟩ := victims
          cases same) absent
        cases gone.symm.trans here
      · simp only [seq_eq_ok] at perform
        obtain ⟨args, read, ⟨⟨created, fresh⟩, entered⟩, enters, done⟩ := perform
        cases done
        cases (enqueue_enqueued enters).jobs absent (fun gone => by cases gone.symm.trans here)
        obtain ⟨q, stored, lives⟩ := enqueue_livesBy (occurrenceArgs_bare read) enters here
        exact ⟨q, stored, lives⟩
    · cases perform
      cases absent.symm.trans here

theorem fireOccurrences_livesBy {s : Schedule} {dues : List Time} {counts counts' : FireCounts}
    (run : fireOccurrences env id s.toScheduleRow claim decision dues counts db = .ok (counts', db')) {j : Uuid}
    (absent : db.jobs.get? j = none) (here : db'.jobs.get? j = some job) :
    ∃ q, db.queues.get? job.queue = some q ∧ job.LivesBy q := by
  induction dues generalizing db counts with
  | nil =>
    cases run
    exact nomatch absent.symm.trans here
  | cons due dues ih =>
    simp only [fireOccurrences, seq_eq_ok] at run
    obtain ⟨⟨counted, fired⟩, first, rest⟩ := run
    have queues := (fireOccurrence_keeps first).1
    cases early : fired.jobs.get? j with
    | none =>
      obtain ⟨q, stored, lives⟩ := ih rest early
      exact ⟨q, queues ▸ stored, lives⟩
    | some old =>
      obtain ⟨enqueues, -⟩ := (fireOccurrence_performs first).jobs j old absent early
      cases ((fireOccurrences_performs rest).rows enqueues j old early).symm.trans here
      exact fireOccurrence_livesBy first absent early

/-- A job that a schedule fires. -/
theorem fireSchedule_livesBy {a : FireArgs} {answer : ActionResult} (run : fireSchedule env a db = .ok (answer, db'))
    {j : Uuid} (absent : db.jobs.get? j = none) (here : db'.jobs.get? j = some job) :
    ∃ q, db.queues.get? job.queue = some q ∧ job.LivesBy q := by
  simp only [fireSchedule, newUuid, seq_eq_ok] at run
  obtain ⟨-, -, -, -, run⟩ := run
  split at run
  · cases run
  · split at run
    · cases run
      cases absent.symm.trans here
    · split at run
      · cases run
        cases absent.symm.trans here
      · simp only [fireUnderClaim, seq_eq_ok] at run
        obtain ⟨outcome, -, ⟨counts, fired⟩, fire, written, write, finish⟩ := run
        cases finish
        obtain ⟨_, -, rfl⟩ := writeSchedule_frame write
        obtain ⟨q, stored, lives⟩ := fireOccurrences_livesBy fire absent here
        exact ⟨q, stored, lives⟩

end Fire

section Followups

variable {parentId : Uuid} {parent : Job}

/-- The new jobs of a completion are followups. -/
theorem CompletionRun.untimed {jobId : Uuid} {specs : List Jsonb} {parent : Job}
    (run : CompletionRun env jobId parent specs db db') (absent : db.jobs.get? id = none)
    (here : db'.jobs.get? id = some job) : job.expiresAt = none := by
  obtain ⟨taken, settle, follow, -, continues, -⟩ := run
  have before := (reserveFollowups_path env taken).steps.absent (fun p ⟨w, same⟩ => nomatch same) absent
  have fresh := settle.steps.absent (fun p entered => by simp [changesOf, promotions] at entered) before
  exact ((enqueueFollowups_vouches follow continues.stored).guarded id job fresh here).1.2

end Followups

section Paths

/-- A job comes in without a time to live of its own; the flag is set when it comes as a followup. -/
inductive EntersBare (env : Env) (db : Db) (id : Uuid) (db' : Db) : Bool → Prop
  | enqueue {a : EnqueueArgs} (bare : a.ttlSeconds = none) (run : enqueue env a db = .ok ((id, true), db')) :
      EntersBare env db id db' false
  | tryEnqueue {a : EnqueueArgs} {retry : Option ℤ} (bare : a.ttlSeconds = none)
      (run : tryEnqueue env a db = .ok ((.accepted, some id, retry), db')) : EntersBare env db id db' false
  | finishAdmission {queue : String} {key : Option String} {handle : Option Uuid} {content receipt : Option Jsonb}
      {answer : FinishResult} (run : finishAdmission env queue key handle content receipt db = .ok (answer, db'))
      (created : answer.outcome = .created) (named : answer.jobId = some id) : EntersBare env db id db' false
  | enqueueMany {queue : String} {specs : Option Jsonb} {answer : List (ℤ × Uuid × Bool)} {index : ℤ} {spec : Jsonb}
      (run : enqueueMany env queue specs db = .ok (answer, db')) (created : (index, id, true) ∈ answer)
      (given : ((specs.map (·.elements)).getD [])[(index - 1).toNat]? = some spec)
      (bare : spec.fieldText? "ttl_seconds" = none) : EntersBare env db id db' false
  | fireSchedule {a : FireArgs} {answer : ActionResult} (run : fireSchedule env a db = .ok (answer, db'))
      (absent : db.jobs.get? id = none) : EntersBare env db id db' false
  | completeJob {jobId attemptId : Uuid} {worker : Option String} {result stats followups : Option Jsonb}
      {answer : SettleResult}
      (run : completeJob env jobId attemptId worker result stats followups db = .ok (answer, db'))
      (absent : db.jobs.get? id = none) : EntersBare env db id db' true
  | completeJobWithPolicy {jobId attemptId : Uuid} {worker policyHash : Option String}
      {result stats followups : Option Jsonb} {answer : SettleResult}
      (run : completeJobWithPolicy env jobId attemptId worker result stats followups policyHash db = .ok (answer, db'))
      (absent : db.jobs.get? id = none) : EntersBare env db id db' true

theorem Completes.untimed {jobId attemptId : Uuid} {specs : List Jsonb} {answer : SettleResult}
    (completes : Completes env jobId attemptId specs db db' answer) (absent : db.jobs.get? id = none)
    (here : db'.jobs.get? id = some job) : job.expiresAt = none := by
  obtain ⟨-, rfl, -⟩ | ⟨parent, -, run, -⟩ := completes
  · exact nomatch absent.symm.trans here
  · exact run.untimed absent here

/-- A job that comes in without a time to live of its own lives by its queue, unless it is a followup. -/
theorem EntersBare.livesBy (enters : EntersBare env db id db' false) (here : db'.jobs.get? id = some job) :
    ∃ q, db.queues.get? job.queue = some q ∧ job.LivesBy q := by
  cases enters with
  | enqueue bare run => exact enqueue_livesBy bare run here
  | tryEnqueue bare run => exact enqueue_livesBy bare (tryEnqueue_accepted run) here
  | finishAdmission run created named => exact finishAdmission_livesBy run created named here
  | enqueueMany run created given bare => exact enqueueMany_livesBy run created given bare here
  | fireSchedule run absent => exact fireSchedule_livesBy run absent here

theorem EntersBare.untimed (enters : EntersBare env db id db' true) (here : db'.jobs.get? id = some job) :
    job.expiresAt = none := by
  cases enters with
  | completeJob run absent => exact (completeJob_completes run).untimed absent here
  | completeJobWithPolicy run absent => exact (completeJobWithPolicy_completes run).untimed absent here

/-- The job expires this many seconds after it is due: the sweep of the expired jobs finds its row, if it is not locked,
once that time is over. -/
def JobRow.Expires (ttl : ℤ) (id : Uuid) (job : Job) : Prop :=
  job.expiresAt = some (job.scheduledAt + seconds ttl) ∧ ∀ (later : Env) (core : Core),
    core.jobs.get? id = some job → later.locked id = false → job.scheduledAt + seconds ttl ≤ later.now →
      id ∈ ttlExpired later core

theorem ttlExpired_iff {core : Core} (here : core.jobs.get? id = some job) : id ∈ ttlExpired env core ↔
    unstarted job.toJobRow = true ∧ job.expiresAt.any (· ≤ env.now) = true ∧ env.locked id = false := by
  simp only [ttlExpired, List.mem_map, Prod.exists, exists_and_right, exists_eq_right, Table.mem_selectBy,
    decide_eq_true_eq, here, Option.some.injEq, exists_eq_left', Bool.not_eq_true]

/-- A job that comes in without a time to live of its own, on a queue that has a default, expires by that default exactly
when it does not come as a followup. -/
theorem default_ttl_applies {followup : Bool} {ttl : ℤ} (enters : EntersBare env db id db' followup)
    (here : db'.jobs.get? id = some job) (stored : db.queues.get? job.queue = some q)
    (default : q.defaultTtlSeconds = some ttl) : JobRow.Expires ttl id job ↔ followup = false := by
  cases followup with
  | false =>
    refine iff_of_true ?_ rfl
    obtain ⟨_, known, waits, expires⟩ := enters.livesBy here
    cases stored.symm.trans known
    rw [default, Option.map_some] at expires
    refine ⟨expires, fun later core there unlocked past => (ttlExpired_iff there).mpr ⟨waits, ?_, unlocked⟩⟩
    rw [expires]
    exact decide_eq_true past
  | true =>
    refine iff_of_false (fun expires => ?_) Bool.noConfusion
    exact nomatch (enters.untimed here).symm.trans expires.1

/-- A job of a queue on which jobs live for an hour is claimed. -/
def claimedWithTtl : List (Time × Command) :=
  [(0, .ensureQueue (some "q") (some (.build [("default_ttl_seconds", .ofInt 3600)]))), (0, .enqueue (.simple "q")),
    (0, .claimJobs (.simple "q" 1))]

/-- The call admits job 4 to the queue, and the test is about its row. -/
def admitsFourth (call : Db → Option Db) (p : Job → Bool) (s : System) : Bool :=
  (s.db.queues.get? "q").any (·.defaultTtlSeconds = some 3600) && (s.db.jobs.get? 4).isNone &&
    (call s.db).any fun db => (db.jobs.get? 4).any fun job => job.queue = "q" && p job

theorem fourth_played {call : Db → Option Db} {p : Job → Bool}
    (played : System.plays .digits claimedWithTtl (.installed .digits 0) (admitsFourth call p) = true) :
    ∃ (s : System) (q : Queue) (job : Job) (db : Db), System.Reachable .digits anyCall s ∧
      s.db.queues.get? job.queue = some q ∧ q.defaultTtlSeconds = some 3600 ∧ s.db.jobs.get? 4 = none ∧
      call s.db = some db ∧ db.jobs.get? 4 = some job ∧ p job = true := by
  obtain ⟨s, run, there⟩ := System.plays_run anyCall played fun _ _ _ => trivial
  unfold admitsFourth at there
  rw [Bool.and_eq_true, Bool.and_eq_true, Option.isNone_iff_eq_none] at there
  obtain ⟨⟨queue, absent⟩, there⟩ := there
  obtain ⟨q, stored, ttl⟩ := (Option.any_eq_true _ _).mp queue
  obtain ⟨db, admitted, there⟩ := (Option.any_eq_true _ _).mp there
  obtain ⟨job, here, good⟩ := (Option.any_eq_true _ _).mp there
  rw [Bool.and_eq_true, decide_eq_true_eq] at good
  exact ⟨s, q, job, db, ⟨0, run⟩, by rw [good.1]; exact stored, of_decide_eq_true ttl, absent, admitted, here, good.2⟩

/-- A job that is enqueued there expires after an hour. -/
theorem default_ttl_applies_enqueued : ∃ (s : System) (id : Uuid) (job : Job) (db : Db),
    System.Reachable .digits anyCall s ∧ enqueue (.alone .digits 0 9) (.simple "q") s.db = .ok ((id, true), db) ∧
    db.jobs.get? id = some job ∧ JobRow.Expires 3600 id job := by
  have played : System.plays .digits claimedWithTtl (.installed .digits 0) (admitsFourth (fun db =>
      (enqueue (.alone .digits 0 9) (.simple "q") db).toOption.bind fun r => if r.1 = (4, true) then some r.2 else none)
        fun _ => true) = true := by decide +kernel
  obtain ⟨s, q, job, db, reachable, stored, ttl, -, admitted, here, -⟩ := fourth_played played
  obtain ⟨⟨answer, db'⟩, run, same⟩ := Option.bind_eq_some_iff.mp admitted
  split_ifs at same with four
  cases same
  cases four
  have run := toOption_eq_some.mp run
  exact ⟨s, 4, job, _, reachable, run, here,
    (default_ttl_applies (.enqueue rfl run) here stored ttl).mpr rfl⟩

/-- A followup there never expires. -/
theorem followups_never_expire : ∃ (s : System) (q : Queue) (id : Uuid) (job : Job) (answer : SettleResult) (db : Db),
    System.Reachable .digits anyCall s ∧ s.db.queues.get? job.queue = some q ∧ q.defaultTtlSeconds = some 3600 ∧
    s.db.jobs.get? id = none ∧
    completeJob (.alone .digits 0 9) 2 3 (some "w") none none
      (some (.arr [.obj [("step", .str "s"), ("job_type", .str "t")]])) s.db = .ok (answer, db) ∧
    db.jobs.get? id = some job ∧ job.status = .queued ∧ ¬JobRow.Expires 3600 id job := by
  have played : System.plays .digits claimedWithTtl (.installed .digits 0) (admitsFourth (fun db =>
      (completeJob (.alone .digits 0 9) 2 3 (some "w") none none
        (some (.arr [.obj [("step", .str "s"), ("job_type", .str "t")]])) db).toOption.map (·.2))
        fun job => job.status = .queued && job.expiresAt.isNone) = true := by decide +kernel
  obtain ⟨s, q, job, db, reachable, stored, ttl, absent, admitted, here, good⟩ := fourth_played played
  obtain ⟨⟨answer, db'⟩, run, rfl⟩ := Option.map_eq_some_iff.mp admitted
  rw [Bool.and_eq_true, decide_eq_true_eq, Option.isNone_iff_eq_none] at good
  exact ⟨s, q, 4, job, answer, _, reachable, stored, ttl, absent, toOption_eq_some.mp run, here, good.1,
    fun expires => nomatch good.2.symm.trans expires.1⟩

end Paths

end Taskq
