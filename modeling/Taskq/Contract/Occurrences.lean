import Mathlib
import Taskq.Contract.Retirement
import Taskq.Lifecycle.Targets

/-! Fired occurrences and their jobs: an occurrence adopts the job of a producer that holds its key. -/
namespace Taskq
open Relational

variable {env : Env} {db mid db' : Db} {id decision : Uuid} {s : ScheduleRow} {claim : ScheduleClaim}
  {due : Time} {dues : List Time} {counts counts' : FireCounts}

section Firing

/-- The occurrence is later than the schedule allows. -/
def tooLate (s : ScheduleRow) (claim : ScheduleClaim) (due : Time) : Bool :=
  s.maxLatenessSeconds.any (· < max 0 ((claim.asOf - due) / 1000000))

/-- The occurrence has no row yet, is not too late, and no earlier one is in its way. -/
def opens (db : Db) (id : Uuid) (s : ScheduleRow) (claim : ScheduleClaim) (due : Time) : Bool :=
  (db.scheduling.occurrences.get? (id, due)).isNone && !tooLate s claim due &&
    !(s.overlapPolicy = .forbid && overlaps db id due)

/-- The occurrences that a call fires; where overlaps are forbidden the first one is in the way of the
others. -/
def firing (db : Db) (id : Uuid) (s : ScheduleRow) (claim : ScheduleClaim) (dues : List Time) : List Time :=
  let opening := dues.filter (opens db id s claim)
  if s.overlapPolicy = .forbid then opening.take 1 else opening

theorem firing_cons : firing db id s claim (due :: dues) =
    if opens db id s claim due then
      due :: if s.overlapPolicy = .forbid then [] else firing db id s claim dues
    else firing db id s claim dues := by
  unfold firing
  rw [List.filter_cons]
  split_ifs <;> simp

theorem mem_of_firing {d : Time} (fires : d ∈ firing db id s claim dues) : d ∈ dues := by
  unfold firing at fires
  split_ifs at fires
  · exact (List.mem_filter.mp (List.mem_of_mem_take fires)).1
  · exact (List.mem_filter.mp fires).1

theorem firing_congr (same : ∀ d ∈ dues, opens mid id s claim d = opens db id s claim d) :
    firing mid id s claim dues = firing db id s claim dues := by
  unfold firing
  rw [List.filter_congr same]

theorem lateness_eq_ok {late : ℤ} (run : lateness claim due = .ok late) :
    late = max 0 ((claim.asOf - due) / 1000000) := by
  simp only [lateness, seq_eq_ok, int4_eq_ok] at run
  obtain ⟨n, ⟨-, rfl⟩, finish⟩ := run
  exact (Except.ok.inj finish).symm

/-- Where an occurrence of a job schedule has no row, it fires exactly when it opens. -/
theorem occurrenceOutcome_fired (job : s.target.fieldText? "kind" = some "job")
    (fresh : db.scheduling.occurrences.get? (id, due) = none) :
    occurrenceOutcome db id s due (max 0 ((claim.asOf - due) / 1000000)) = .fired ↔
      opens db id s claim due = true := by
  have late : (s.maxLatenessSeconds.any (· < max 0 ((claim.asOf - due) / 1000000)) = true) =
      (tooLate s claim due = true) := rfl
  simp only [occurrenceOutcome, opens, late, job, fresh, Option.isNone_none, Bool.true_and, true_and]
  cases tooLate s claim due with
  | true => simp
  | false =>
    by_cases overlap : s.overlapPolicy = .forbid ∧ overlaps db id due = true
    · simp [overlap]
    · simp only [Bool.false_eq_true, if_false, if_neg overlap, true_iff, Bool.not_false, Bool.true_and,
        Bool.not_eq_true', Bool.and_eq_false_iff, decide_eq_false_iff_not]
      by_cases forbids : s.overlapPolicy = .forbid
      · exact .inr (by simpa [forbids] using overlap)
      · exact .inl forbids

end Firing

section Step

/-- One occurrence of a job schedule: it has a row already, it is skipped, or it fires. -/
inductive OccurrenceStep (env : Env) (id : Uuid) (s : ScheduleRow) (claim : ScheduleClaim) (due : Time)
    (counts : FireCounts) (db : Db) : FireCounts → Db → Prop
  | recorded {o : Occurrence} (there : db.scheduling.occurrences.get? (id, due) = some o) :
      OccurrenceStep env id s claim due counts db counts db
  | skipped {o : Occurrence} {counts' : FireCounts} {db' : Db}
      (fresh : db.scheduling.occurrences.get? (id, due) = none) (closed : opens db id s claim due = false)
      (row : db'.scheduling.occurrences = db.scheduling.occurrences.put (id, due) o)
      (idle : o.outcome ≠ .fired ∧ o.jobId = none) (jobs : db'.jobs = db.jobs)
      (count : counts'.jobs = counts.jobs) : OccurrenceStep env id s claim due counts db counts' db'
  | fired {o : Occurrence} {counts' : FireCounts} {db' : Db} {late : ℤ} {args : EnqueueArgs} {answer : Uuid × Bool}
      (fresh : db.scheduling.occurrences.get? (id, due) = none) (opened : opens db id s claim due = true)
      (row : db'.scheduling.occurrences = db.scheduling.occurrences.put (id, due) o)
      (outcome : o.outcome = .fired) (job : o.jobId = some answer.1)
      (made : occurrenceArgs env id s claim o.occurrenceId due late = .ok args)
      (converged : Converged env args (occurrenceKey id due) db answer db')
      (count : counts'.jobs = counts.jobs + 1) : OccurrenceStep env id s claim due counts db counts' db'

theorem fireOccurrence_step (job : s.target.fieldText? "kind" = some "job")
    (run : fireOccurrence env id s claim decision due counts db = .ok (counts', db')) :
    OccurrenceStep env id s claim due counts db counts' db' := by
  unfold fireOccurrence at run
  split at run
  · rename_i there
    obtain ⟨o, there⟩ := Option.isSome_iff_exists.mp there
    cases run
    exact .recorded there
  · rename_i free
    have fresh : db.scheduling.occurrences.get? (id, due) = none := by simpa using free
    simp only [newUuid, seq_eq_ok] at run
    obtain ⟨late, lateness, ⟨done, last⟩, perform, finish⟩ := run
    obtain rfl := lateness_eq_ok lateness
    cases finish
    -- drawing the id of the occurrence touches no table
    have opening := @occurrenceOutcome_fired { db with nextUuid := db.nextUuid + 1 } id s claim due job fresh
    generalize occurrenceOutcome _ id s due _ = outcome at perform opening ⊢
    cases outcome with
    | fired =>
      have opened : opens db id s claim due = true := opening.mp rfl
      have enqueues : s.target.fieldText? "kind" ≠ some "maintenance" := by simp [job]
      simp only [performFired, if_true, performOccurrence, if_neg enqueues, seq_eq_ok] at perform
      obtain ⟨args, made, ⟨⟨created, new⟩, enqueued⟩, enqueue, finish⟩ := perform
      cases finish
      obtain ⟨-, alone, given, -⟩ := occurrenceArgs_eq_ok made
      have scheduling := congrArg Prod.fst (enqueue_path enqueue).settings
      have converged := enqueue_converged alone given enqueue
      let own : Occurrence := ⟨db.nextUuid, .fired, some created, some decision, env.now, env.xid⟩
      refine @OccurrenceStep.fired env id s claim due counts db own _ _ _ args (created, new) fresh opened ?_ rfl rfl
        made ?_ rfl
      · exact (congrArg (fun t : ScheduleTables => t.occurrences.put (id, due) _) scheduling).trans (Table.put_put _ _ _ _)
      · cases converged with
        | inserted free new stored row jobs => exact .inserted free new stored row jobs
        | held holds jobs => exact .held holds jobs
    | lateSkipped | overlapSkipped =>
      have closed : opens db id s claim due = false :=
        eq_false_of_ne_true fun opened => by cases opening.mpr opened
      cases perform
      exact .skipped fresh closed (Table.put_put _ _ _ _) ⟨by rintro ⟨⟩, rfl⟩ rfl rfl

end Step

section Run

/-- An earlier occurrence of the schedule with a live job is in the way. -/
theorem overlaps_iff : overlaps db id due = true ↔ ∃ d o j job, d < due ∧
    db.scheduling.occurrences.get? (id, d) = some o ∧ o.jobId = some j ∧ db.jobs.get? j = some job ∧
      job.status.active = true := by
  simp only [overlaps, ne_eq, decide_eq_true_eq, Table.count_eq_zero, not_forall, Bool.not_eq_false]
  constructor
  · rintro ⟨⟨own, d⟩, o, there, rfl, before, live⟩
    obtain ⟨job, found, active⟩ := (Option.any_eq_true _ _).mp live
    obtain ⟨j, named, stored⟩ := Option.bind_eq_some_iff.mp found
    exact ⟨d, o, j, job, before, there, named, stored, active⟩
  · rintro ⟨d, o, j, job, before, there, named, stored, active⟩
    exact ⟨(id, d), o, there, rfl, before, by simp [named, stored, active]⟩

/-- Another occurrence opens as before after a step, unless the step put a live job in its way. -/
theorem OccurrenceStep.opens (step : OccurrenceStep env id s claim due counts db counts' mid)
    {later : Time} (after : due < later) : Taskq.opens mid id s claim later =
      (Taskq.opens db id s claim later && !(Taskq.opens db id s claim due && s.overlapPolicy = .forbid)) := by
  have apart : (id, later) ≠ (id, due) := by simp [after.ne']
  cases step with
  | recorded there => simp [Taskq.opens, there]
  | @skipped o _ _ fresh closed row idle jobs =>
    have same : overlaps mid id later = overlaps db id later := by
      rw [Bool.eq_iff_iff, overlaps_iff, overlaps_iff, jobs, row]
      refine exists_congr fun d => exists_congr fun o' => exists_congr fun j => exists_congr fun job => ?_
      by_cases own : d = due
      · subst own
        simp only [Table.get?_put_self, fresh, Option.some.injEq]
        refine iff_of_false ?_ (by simp)
        rintro ⟨-, rfl, named, -⟩
        rw [idle.2] at named
        cases named
      · rw [Table.get?_put_of_ne _ _ (by simp [own])]
    rw [closed, Bool.false_and, Bool.not_false, Bool.and_true]
    simp only [Taskq.opens, row, Table.get?_put_of_ne _ _ apart, same]
  | @fired o _ _ _ args answer fresh opened row outcome named made converged =>
    by_cases forbids : s.overlapPolicy = .forbid
    · have blocked : overlaps mid id later = true := by
        refine overlaps_iff.mpr ⟨due, o, answer.1, ?_⟩
        cases converged with
        | @inserted j job q _ free new stored job_row jobs =>
          refine ⟨job, after, by rw [row, Table.get?_put_self], named, by rw [jobs, Table.get?_put_self], ?_⟩
          rw [job_row]
          rfl
        | @held j job _ holds jobs =>
          obtain ⟨stored, -, -, active⟩ := keyHolder_eq_some holds
          exact ⟨job, after, by rw [row, Table.get?_put_self], named, by rw [jobs, stored], active⟩
      rw [opened]
      simp [Taskq.opens, forbids, blocked]
    · rw [opened]
      simp [Taskq.opens, forbids, row, Table.get?_put_of_ne _ _ apart]

/-- The key of an occurrence's job determines the occurrence's due instant. -/
theorem occurrenceKey_inj {d d' : Time} : occurrenceKey id d = occurrenceKey id d' ↔ d = d' := by
  unfold occurrenceKey
  rw [String.append_right_inj]
  exact Int.repr_inj

/-- Whether a key of a later occurrence is free does not depend on the step. -/
theorem OccurrenceStep.keyHolder (step : OccurrenceStep env id s claim due counts db counts' mid) {queue : String}
    {later : Time} (after : due < later) : keyHolder mid.toCore queue (occurrenceKey id later) = none ↔
      keyHolder db.toCore queue (occurrenceKey id later) = none := by
  cases step with
  | recorded => rfl
  | skipped _ _ _ _ jobs => rw [keyHolder_eq_none, keyHolder_eq_none, jobs]
  | fired _ _ _ _ _ made converged =>
    cases converged with
    | held holds jobs => rw [keyHolder_eq_none, keyHolder_eq_none, jobs]
    | @inserted j job q _ free new stored row jobs =>
      have other : job.idempotencyKey ≠ some (occurrenceKey id later) := by
        rw [row]
        simp [EnqueueArgs.row, (occurrenceArgs_eq_ok made).2.2.1, occurrenceKey_inj, after.ne]
      rw [keyHolder_eq_none, keyHolder_eq_none, jobs]
      refine forall_congr' fun j' => ⟨fun free r there => ?_, fun free r there => ?_⟩
      · have apart : j' ≠ j := fun same => by simp [same ▸ new] at there
        exact free r (by rw [Table.get?_put_of_ne _ _ apart, there])
      · by_cases own : j' = j
        · rw [own, Table.get?_put_self] at there
          cases there
          exact fun _ named => absurd named other
        · exact free r (by rwa [Table.get?_put_of_ne _ _ own] at there)

/-- Rows stay through a step. -/
theorem OccurrenceStep.kept (step : OccurrenceStep env id s claim due counts db counts' mid) :
    (∀ key o, db.scheduling.occurrences.get? key = some o → mid.scheduling.occurrences.get? key = some o) ∧
      ∀ j job, db.jobs.get? j = some job → mid.jobs.get? j = some job := by
  have keeps {o : Occurrence} (fresh : db.scheduling.occurrences.get? (id, due) = none)
      (row : mid.scheduling.occurrences = db.scheduling.occurrences.put (id, due) o) (key : Uuid × Time)
      (o' : Occurrence) (there : db.scheduling.occurrences.get? key = some o') :
      mid.scheduling.occurrences.get? key = some o' := by
    have apart : key ≠ (id, due) := fun same => by simp [same ▸ fresh] at there
    rw [row, Table.get?_put_of_ne _ _ apart, there]
  cases step with
  | recorded => exact ⟨fun _ _ h => h, fun _ _ h => h⟩
  | skipped fresh _ row _ jobs => exact ⟨keeps fresh row, fun j job h => by rw [jobs, h]⟩
  | fired fresh _ row _ _ _ converged =>
    refine ⟨keeps fresh row, fun j job there => ?_⟩
    cases converged with
    | held _ jobs => rw [jobs, there]
    | @inserted own _ _ _ _ new _ _ jobs =>
      have apart : j ≠ own := fun same => by simp [same ▸ new] at there
      rw [jobs, Table.get?_put_of_ne _ _ apart, there]

/-- Any number of occurrences one after the other. -/
inductive OccurrenceSteps (env : Env) (id : Uuid) (s : ScheduleRow) (claim : ScheduleClaim) :
    List Time → FireCounts → Db → FireCounts → Db → Prop
  | nil {counts : FireCounts} {db : Db} : OccurrenceSteps env id s claim [] counts db counts db
  | cons {due : Time} {dues : List Time} {counts mids counts' : FireCounts} {db mid db' : Db}
      (first : OccurrenceStep env id s claim due counts db mids mid)
      (rest : OccurrenceSteps env id s claim dues mids mid counts' db') :
      OccurrenceSteps env id s claim (due :: dues) counts db counts' db'

theorem fireOccurrences_steps (job : s.target.fieldText? "kind" = some "job")
    (run : fireOccurrences env id s claim decision dues counts db = .ok (counts', db')) :
    OccurrenceSteps env id s claim dues counts db counts' db' := by
  induction dues generalizing db counts with
  | nil =>
    cases run
    exact .nil
  | cons due dues ih =>
    simp only [fireOccurrences, seq_eq_ok] at run
    obtain ⟨⟨counted, fired⟩, first, rest⟩ := run
    exact .cons (fireOccurrence_step job first) (ih rest)

theorem OccurrenceSteps.kept (steps : OccurrenceSteps env id s claim dues counts db counts' db') :
    (∀ key o, db.scheduling.occurrences.get? key = some o → db'.scheduling.occurrences.get? key = some o) ∧
      ∀ j job, db.jobs.get? j = some job → db'.jobs.get? j = some job := by
  induction steps with
  | nil => exact ⟨fun _ _ h => h, fun _ _ h => h⟩
  | cons first _ ih =>
    exact ⟨fun key o h => ih.1 key o (first.kept.1 key o h), fun j job h => ih.2 j job (first.kept.2 j job h)⟩

/-- The fired occurrences of the rest are those of the whole list, but for a first one that is in their
way. -/
theorem OccurrenceStep.firing (step : OccurrenceStep env id s claim due counts db counts' mid)
    (sorted : ∀ later ∈ dues, due < later) : Taskq.firing db id s claim (due :: dues) =
      if Taskq.opens db id s claim due then due :: Taskq.firing mid id s claim dues
      else Taskq.firing mid id s claim dues := by
  rw [firing_cons]
  split_ifs with opened forbids
  · have closed : Taskq.firing mid id s claim dues = [] := by
      unfold Taskq.firing
      rw [List.filter_eq_nil_iff.mpr fun later member => by simp [step.opens (sorted later member), opened, forbids]]
      simp
    rw [closed]
  · have same : Taskq.firing mid id s claim dues = Taskq.firing db id s claim dues :=
      firing_congr fun later member => by simp [step.opens (sorted later member), forbids]
    rw [same]
  · have same : Taskq.firing mid id s claim dues = Taskq.firing db id s claim dues :=
      firing_congr fun later member => by simp [step.opens (sorted later member), opened]
    rw [same]

/-- The job of a fired occurrence as it should be: inserted by the call, from the target and under the
id of the occurrence. -/
structure OwnJob (env : Env) (id : Uuid) (s : ScheduleRow) (claim : ScheduleClaim) (due : Time) (o : Occurrence)
    (db db' : Db) (j : Uuid) : Prop where
  new : db.jobs.get? j = none
  made : ∃ late args q job, occurrenceArgs env id s claim o.occurrenceId due late = .ok args ∧
    db'.jobs.get? j = some job ∧ job.toJobRow = args.row env q .ordinary

/-- A job that the rest of a call inserts is new to the whole call. -/
theorem OwnJob.before {o : Occurrence} {j : Uuid} (own : OwnJob env id s claim due o mid db' j)
    (kept : ∀ j job, db.jobs.get? j = some job → mid.jobs.get? j = some job) : OwnJob env id s claim due o db db' j := by
  refine ⟨?_, own.made⟩
  cases there : db.jobs.get? j with
  | none => rfl
  | some job => exact nomatch own.new.symm.trans (kept j job there)

/-- The jobs of a table that another one does not have. -/
def addedTo (base jobs : Table Uuid Job) : ℤ := (jobs.count fun j _ => (base.get? j).isNone : ℕ)

theorem OccurrenceStep.own (step : OccurrenceStep env id s claim due counts db counts' mid)
    (free : Taskq.opens db id s claim due = true →
      Taskq.keyHolder db.toCore ((s.target.fieldText? "queue").getD "") (occurrenceKey id due) = none) :
    (∀ o j, db.scheduling.occurrences.get? (id, due) = none → mid.scheduling.occurrences.get? (id, due) = some o →
      o.jobId = some j → OwnJob env id s claim due o db mid j) ∧
    ∀ base : Table Uuid Job, (∀ j, db.jobs.get? j = none → base.get? j = none) →
      counts'.jobs - counts.jobs = addedTo base mid.jobs - addedTo base db.jobs := by
  cases step with
  | recorded there => exact ⟨fun o j absent => by simp [there] at absent, fun base _ => by simp⟩
  | skipped _ _ row idle jobs count =>
    refine ⟨fun o j _ there named => ?_, fun base _ => by simp [jobs, count]⟩
    rw [row, Table.get?_put_self] at there
    cases there
    rw [idle.2] at named
    cases named
  | @fired own _ _ late args _ _ opened row _ job made converged count =>
    have queue : args.queue = (s.target.fieldText? "queue").getD "" := (occurrenceArgs_eq_ok made).1
    cases converged with
    | held holds =>
      rw [queue, free opened] at holds
      cases holds
    | @inserted j stored q _ _ new _ written jobs =>
      refine ⟨fun o j' _ there named => ?_, fun base outer => ?_⟩
      · rw [row, Table.get?_put_self] at there
        cases there
        cases job.symm.trans named
        exact ⟨new, late, args, q, stored, made, by rw [jobs, Table.get?_put_self], written⟩
      · rw [addedTo, addedTo, jobs, Table.count_put, Table.remove_of_get?_eq_none new, if_pos (by rw [outer j new]; rfl)]
        push_cast
        omega

/-- Where no live job of the queue holds the key of an occurrence that fires, every occurrence that the
call records has its own job, and the call counts the jobs that it inserts. -/
theorem OccurrenceSteps.own (steps : OccurrenceSteps env id s claim dues counts db counts' db')
    (sorted : dues.Pairwise (· < ·)) (free : ∀ d ∈ Taskq.firing db id s claim dues,
      Taskq.keyHolder db.toCore ((s.target.fieldText? "queue").getD "") (occurrenceKey id d) = none) :
    (∀ d o j, db.scheduling.occurrences.get? (id, d) = none →
      db'.scheduling.occurrences.get? (id, d) = some o → o.jobId = some j → OwnJob env id s claim d o db db' j) ∧
    ∀ base : Table Uuid Job, (∀ j, db.jobs.get? j = none → base.get? j = none) →
      counts'.jobs - counts.jobs = addedTo base db'.jobs - addedTo base db.jobs := by
  induction steps with
  | nil => exact ⟨fun d o j absent there => by simp [absent] at there, fun base _ => by simp⟩
  | @cons due dues counts mids counts' db mid db' first rest ih =>
    obtain ⟨later, sorted⟩ := List.pairwise_cons.mp sorted
    rw [first.firing later] at free
    have onwards : ∀ d ∈ Taskq.firing mid id s claim dues,
        Taskq.keyHolder mid.toCore ((s.target.fieldText? "queue").getD "") (occurrenceKey id d) = none := by
      intro d member
      refine (first.keyHolder (later d (mem_of_firing member))).mpr (free d ?_)
      split_ifs
      · exact List.mem_cons_of_mem _ member
      · exact member
    obtain ⟨owned, counted⟩ := ih sorted onwards
    obtain ⟨ownFirst, countFirst⟩ := first.own fun opened => free due (by simp [opened])
    refine ⟨fun d o j absent there named => ?_, fun base outer => ?_⟩
    · cases before : mid.scheduling.occurrences.get? (id, d) with
      | none => exact (owned d o j before there named).before first.kept.2
      | some o' =>
        -- only the step can have recorded the occurrence
        obtain rfl : o' = o := Option.some.inj ((rest.kept.1 _ _ before).symm.trans there)
        have same : d = due := by
          by_contra other
          cases first with
          | recorded => simp [absent] at before
          | skipped _ _ row | fired _ _ row =>
            rw [row, Table.get?_put_of_ne _ _ (by simp [other]), absent] at before
            cases before
        subst same
        obtain ⟨new, late, args, q, job, made, stored, row⟩ := ownFirst o' j absent before named
        exact ⟨new, late, args, q, job, made, rest.kept.2 j job stored, row⟩
    · have inner (j : Uuid) (absent : mid.jobs.get? j = none) : base.get? j = none := by
        refine outer j ?_
        cases there : db.jobs.get? j with
        | none => rfl
        | some job => cases absent.symm.trans (first.kept.2 j job there)
      have late := counted base inner
      have early := countFirst base outer
      omega

/-- An occurrence that fires while a live job of the queue holds its key gets that job. -/
theorem OccurrenceSteps.adopts (steps : OccurrenceSteps env id s claim dues counts db counts' db')
    (sorted : dues.Pairwise (· < ·)) {d : Time} (fires : d ∈ Taskq.firing db id s claim dues)
    (held : Taskq.keyHolder db.toCore ((s.target.fieldText? "queue").getD "") (occurrenceKey id d) ≠ none) :
    ∃ o j job, db.scheduling.occurrences.get? (id, d) = none ∧
      db'.scheduling.occurrences.get? (id, d) = some o ∧ o.outcome = .fired ∧ o.jobId = some j ∧
      db.jobs.get? j = some job ∧ job.idempotencyKey = some (occurrenceKey id d) := by
  induction steps with
  | nil => simp [Taskq.firing] at fires
  | @cons due dues counts mids counts' db mid db' first rest ih =>
    obtain ⟨later, sorted⟩ := List.pairwise_cons.mp sorted
    rw [first.firing later] at fires
    obtain ⟨opened, rfl⟩ | onwards : Taskq.opens db id s claim due = true ∧ d = due ∨
        d ∈ Taskq.firing mid id s claim dues := by
      split_ifs at fires with opened
      · exact (List.mem_cons.mp fires).imp_left fun same => ⟨opened, same⟩
      · exact .inr fires
    · cases first with
      | recorded there => simp [Taskq.opens, there] at opened
      | skipped _ closed => simp [opened] at closed
      | @fired o _ _ _ args answer fresh _ row outcome named made converged =>
        have queue : args.queue = (s.target.fieldText? "queue").getD "" := (occurrenceArgs_eq_ok made).1
        cases converged with
        | inserted free => exact absurd (queue ▸ free) held
        | @held j job _ holds jobs =>
          obtain ⟨stored, -, key, -⟩ := keyHolder_eq_some holds
          exact ⟨o, j, job, fresh, rest.kept.1 _ _ (by rw [row, Table.get?_put_self]), outcome, named, stored, key⟩
    · have after := later d (mem_of_firing onwards)
      obtain ⟨o, j, job, absent, there, outcome, named, stored, key⟩ :=
        ih sorted onwards (mt (first.keyHolder after).mp held)
      refine ⟨o, j, job, ?_, there, outcome, named, ?_, key⟩
      · cases before : db.scheduling.occurrences.get? (id, d) with
        | none => rfl
        | some o' => cases absent.symm.trans (first.kept.1 _ _ before)
      · cases first with
        | recorded => exact stored
        | skipped _ _ _ _ jobs => rwa [jobs] at stored
        | fired _ _ _ _ _ made converged =>
          cases converged with
          | held _ jobs => rwa [jobs] at stored
          | @inserted new own q _ _ _ _ row jobs =>
            rw [jobs] at stored
            by_cases same : j = new
            · rw [same, Table.get?_put_self] at stored
              cases stored
              rw [row] at key
              simp [EnqueueArgs.row, (occurrenceArgs_eq_ok made).2.2.1, occurrenceKey_inj, after.ne] at key
            · rwa [Table.get?_put_of_ne _ _ same] at stored

end Run

section Call

variable {a : FireArgs} {answer : ActionResult}

/-- The maintenance schedule enqueues nothing. -/
theorem fireOccurrences_maintains (maintenance : maintains s)
    (run : fireOccurrences env id s claim decision dues counts db = .ok (counts', db')) :
    counts'.jobs = counts.jobs ∧ ∀ key o, db'.scheduling.occurrences.get? key = some o →
      db.scheduling.occurrences.get? key = some o ∨ o.jobId = none := by
  induction dues generalizing db counts with
  | nil =>
    cases run
    exact ⟨rfl, fun _ _ h => .inl h⟩
  | cons due dues ih =>
    simp only [fireOccurrences, seq_eq_ok] at run
    obtain ⟨⟨counted, fired⟩, first, rest⟩ := run
    obtain ⟨same, others⟩ := ih rest
    suffices step : counted.jobs = counts.jobs ∧ ∀ key o, fired.scheduling.occurrences.get? key = some o →
        db.scheduling.occurrences.get? key = some o ∨ o.jobId = none by
      exact ⟨same.trans step.1, fun key o there => (others key o there).elim (step.2 key o) .inr⟩
    unfold fireOccurrence at first
    split at first
    · cases first
      exact ⟨rfl, fun _ _ h => .inl h⟩
    · simp only [newUuid, seq_eq_ok] at first
      obtain ⟨late, -, ⟨done, last⟩, perform, finish⟩ := first
      cases finish
      obtain ⟨rfl, fewer⟩ : done = none ∧ ∀ key o, key ≠ (id, due) → last.scheduling.occurrences.get? key = some o →
          db.scheduling.occurrences.get? key = some o := by
        have added (key : Uuid × Time) (o o' : Occurrence) (apart : key ≠ (id, due))
            (there : (db.scheduling.occurrences.put (id, due) o').get? key = some o) :
            db.scheduling.occurrences.get? key = some o := by
          rwa [Table.get?_put_of_ne _ _ apart] at there
        unfold performFired performOccurrence at perform
        split at perform
        · rw [if_pos (show s.target.fieldText? "kind" = some "maintenance" from maintenance)] at perform
          simp only [seq_eq_ok] at perform
          obtain ⟨-, -, ⟨report, cleaned⟩, clean, finish⟩ := perform
          cases finish
          exact ⟨rfl, fun key o apart there => added key o _ apart
            ((janitor_performed clean maintenance).fewer key o there)⟩
        · cases perform
          exact ⟨rfl, fun key o apart there => added key o _ apart there⟩
      refine ⟨?_, fun key o there => ?_⟩
      · generalize occurrenceOutcome _ id s due late = outcome
        cases outcome <;> rfl
      · by_cases own : key = (id, due)
        · rw [own] at there
          cases (Table.get?_put_self _ _ _).symm.trans there
          exact .inr rfl
        · exact .inl (fewer key o own ((Table.get?_put_of_ne _ _ own).symm.trans there))

/-- A fire call that is not answered from the record: it is refused, or it performs its occurrences. -/
theorem fireSchedule_cases (run : fireSchedule env a db = .ok (answer, db')) (fresh : answer.replayed = false) :
    ∃ s, db.scheduling.schedules.get? a.scheduleId = some s ∧
      (((replayedAction a.scheduleId s.toScheduleRow a.token (a.hash env)).isSome = true ∨
          currentClaim env s.toScheduleRow a.token a.definitionVersion = none) ∧
        answer.jobsEnqueued = 0 ∧ db' = { db with nextUuid := db.nextUuid + 1 } ∨
      ∃ claim counts mid decision,
        replayedAction a.scheduleId s.toScheduleRow a.token (a.hash env) = none ∧
        currentClaim env s.toScheduleRow a.token a.definitionVersion = some claim ∧
        a.occurrences.Pairwise (· < ·) ∧
        fireOccurrences env a.scheduleId s.toScheduleRow claim decision a.occurrences ⟨0, 0, 0, 0⟩
          { db with nextUuid := db.nextUuid + 1 } = .ok (counts, mid) ∧
        answer.jobsEnqueued = counts.jobs ∧ db'.jobs = mid.jobs ∧
        db'.scheduling.occurrences = mid.scheduling.occurrences) := by
  simp only [fireSchedule, newUuid, seq_eq_ok] at run
  obtain ⟨-, -, -, -, run⟩ := run
  split at run
  · cases run
  · rename_i s found
    refine ⟨s, found, ?_⟩
    split at run
    · rename_i replayed
      cases run
      refine .inl ⟨.inl (by rw [replayed]; rfl), ?_, rfl⟩
      unfold replayedAction at replayed
      split at replayed
      · cases replayed
      · split_ifs at replayed <;> cases replayed
        · cases fresh
        · rfl
    · rename_i unseen
      split at run
      · rename_i refused
        cases run
        exact .inl ⟨.inr refused, rfl, rfl⟩
      · rename_i claim current
        simp only [fireUnderClaim, seq_eq_ok] at run
        obtain ⟨outcome, check, ⟨counts, mid⟩, fire, written, write, finish⟩ := run
        cases finish
        obtain ⟨stored, -, rfl⟩ := writeSchedule_frame write
        exact .inr ⟨claim, counts, mid, _, unseen, current, (checkFire_accepted check).sorted, fire, rfl, rfl, rfl⟩

/-- Every occurrence that a call records as fired with a job has a job that this call inserted, from the
target of the schedule and with the occurrence's id in its headers. -/
def OwnsJobs (env : Env) (a : FireArgs) (db db' : Db) : Prop :=
  ∀ d o j, db.scheduling.occurrences.get? (a.scheduleId, d) = none →
    db'.scheduling.occurrences.get? (a.scheduleId, d) = some o → o.outcome = .fired → o.jobId = some j →
    ∃ s claim job, db.scheduling.schedules.get? a.scheduleId = some s ∧ s.claim = some claim ∧
      OwnJob env a.scheduleId s.toScheduleRow claim d o db db' j ∧ db'.jobs.get? j = some job ∧
      (job.headers.bind (·.field? "taskq_schedule")).bind (·.fieldText? "occurrence_id") =
        some (Uuid.text o.occurrenceId)

/-- When the call is carried out, no live job of the target queue holds the key of an occurrence that
fires. -/
def KeysFree (env : Env) (a : FireArgs) (db : Db) : Prop :=
  ∀ s claim, db.scheduling.schedules.get? a.scheduleId = some s →
    replayedAction a.scheduleId s.toScheduleRow a.token (a.hash env) = none →
    currentClaim env s.toScheduleRow a.token a.definitionVersion = some claim →
    s.target.fieldText? "kind" = some "job" →
    ∀ d ∈ firing db a.scheduleId s.toScheduleRow claim a.occurrences,
      keyHolder db.toCore ((s.target.fieldText? "queue").getD "") (occurrenceKey a.scheduleId d) = none

/-- The id of the occurrence stands in the headers of its job. -/
theorem occurrenceArgs_header {occurrence : Uuid} {late : ℤ} {args : EnqueueArgs} {checked : Env} (target : Targeted checked s.target)
    (made : occurrenceArgs env id s claim occurrence due late = .ok args) :
    (args.headers.bind (·.field? "taskq_schedule")).bind (·.fieldText? "occurrence_id") =
      some (Uuid.text occurrence) := by
  obtain ⟨h, headers, -⟩ := target.headers
  rw [(occurrenceArgs_eq_ok made).2.2.2, headers]
  have merged : (h.merge (.build [("taskq_schedule", scheduleHeader env id s claim occurrence due late)])).field?
      "taskq_schedule" = some (scheduleHeader env id s claim occurrence due late) := by
    rw [show Jsonb.build [("taskq_schedule", scheduleHeader env id s claim occurrence due late)] =
      .obj [("taskq_schedule", scheduleHeader env id s claim occurrence due late)] from rfl, Jsonb.field?_merge]
    rfl
  rw [Option.map_some, Option.bind_some, merged, Option.bind_some, scheduleHeader, Jsonb.fieldText?,
    Jsonb.field?_build]
  rfl

end Call

/-- A fire call gives every occurrence a job of its own, and counts the jobs that it inserts, exactly when
no live job of the target queue holds the key of an occurrence that fires. -/
theorem fired_occurrences_own_jobs {site : Site} {allowed : System → Env → Command → Prop} {s : System}
    {a : FireArgs} {answer : ActionResult} (reachable : System.Reachable site allowed s)
    (run : fireSchedule env a s.db = .ok (answer, db')) (fresh : answer.replayed = false) :
    (OwnsJobs env a s.db db' ∧ addedTo s.db.jobs db'.jobs = answer.jobsEnqueued) ↔ KeysFree env a s.db := by
  have none_added : addedTo s.db.jobs s.db.jobs = 0 := by
    rw [addedTo, Nat.cast_eq_zero, Table.count_eq_zero]
    intro j job there
    simp [there]
  obtain ⟨r, stored, cases⟩ := fireSchedule_cases run fresh
  obtain ⟨idle, none, rfl⟩ | ⟨claim, counts, mid, decision, unseen, current, sorted, fire, count, jobs, rows⟩ := cases
  · refine iff_of_true ⟨fun d o j absent there => by simp [absent] at there, none ▸ none_added⟩ ?_
    intro r' claim stored' unseen current
    cases stored.symm.trans stored'
    obtain known | refused := idle
    · simp [unseen] at known
    · simp [refused] at current
  · have before {d : Time} {o : Occurrence} (absent : s.db.scheduling.occurrences.get? (a.scheduleId, d) = none)
        (there : db'.scheduling.occurrences.get? (a.scheduleId, d) = some o) :
        mid.scheduling.occurrences.get? (a.scheduleId, d) = some o := by rwa [rows] at there
    rw [jobs, count]
    obtain maintenance | ⟨checked, given, past, -, normal⟩ := reachable.timetabled.targets _ _ stored
    · obtain ⟨same, others⟩ := fireOccurrences_maintains maintenance fire
      have performs := fireOccurrences_performs fire
      refine iff_of_true ⟨fun d o j absent there _ named => ?_, ?_⟩ fun r' claim' stored' _ _ job => ?_
      · obtain old | idle := others _ o (before absent there)
        · cases absent.symm.trans old
        · rw [idle] at named
          cases named
      · rw [same, addedTo, Nat.cast_eq_zero, Table.count_eq_zero]
        intro j job there
        cases absent : s.db.jobs.get? j with
        | some _ => rfl
        | none => exact absurd maintenance (performs.jobs j job absent there).1
      · cases stored.symm.trans stored'
        exact absurd ((show r.target.fieldText? "kind" = some "maintenance" from maintenance).symm.trans job) (by simp)
    · have target := normalizeTarget_targeted normal
      have steps := fireOccurrences_steps target.kind fire
      constructor
      · rintro ⟨owns, -⟩ r' claim' stored' - current' - d fires
        cases stored.symm.trans stored'
        cases current.symm.trans current'
        by_contra held
        obtain ⟨o, j, job, absent, there, outcome, named, old, -⟩ := steps.adopts sorted fires held
        obtain ⟨_, _, _, _, _, own, -⟩ := owns d o j absent (by rwa [rows]) outcome named
        cases own.new.symm.trans old
      · intro free
        obtain ⟨owned, counted⟩ := steps.own sorted (free r claim stored unseen current target.kind)
        refine ⟨fun d o j absent there _ named => ?_, ?_⟩
        · have own := owned d o j absent (before absent there) named
          obtain ⟨new, late, args, q, job, made, here, row⟩ := own
          refine ⟨r, claim, job, stored, (currentClaim_eq_some.mp current).1,
            ⟨new, late, args, q, job, made, by rwa [jobs], row⟩, by rwa [jobs], ?_⟩
          rw [row]
          exact occurrenceArgs_header target made
        · have total := counted s.db.jobs fun _ absent => absent
          have start : addedTo s.db.jobs { s.db with nextUuid := s.db.nextUuid + 1 }.jobs = 0 := none_added
          simp only [start] at total
          omega

/-- A schedule of one job of a queue every minute, none of them skipped. -/
def allMinutes : Jsonb :=
  .build [("target", .build [("kind", .str "job"), ("queue", .str "q"), ("job_type", .str "t")]),
    ("recurrence", .build [("kind", .str "interval"), ("interval_seconds", .ofInt 60)]),
    ("catchup_policy", .str "fire_all"), ("max_catchup", .ofInt 1)]

/-- The schedule is compiled, and claimed again when its first occurrence is due. -/
def firstMinute : List (Time × Command) :=
  [(0, .ensureQueue (some "q") none), (0, .putSchedule (some "s") allMinutes (some "a") none),
    (0, .claimSchedules (some "w") (some 2) (some 300)), (0, .fireSchedule ⟨2, 4, 1, [], 60000000⟩),
    (60000000, .claimSchedules (some "w") (some 1) (some 300))]

/-- The fire call of the first occurrence. -/
def firstFire : FireArgs := ⟨2, 6, 1, [60000000], 120000000⟩

/-- The first occurrence gets a job of its own. -/
theorem fired_occurrences_own_jobs_first : ∃ (s : System) (answer : ActionResult) (db' : Db),
    fireSchedule (.alone .digits 60000000 9) firstFire s.db = .ok (answer, db') ∧ answer.jobsEnqueued = 1 ∧
    OwnsJobs (.alone .digits 60000000 9) firstFire s.db db' ∧ addedTo s.db.jobs db'.jobs = 1 := by
  have played : System.plays .digits firstMinute (.installed .digits 0) (fun s =>
      (fireSchedule (.alone .digits 60000000 9) firstFire s.db).toOption.any (fun e =>
        e.1.replayed = false && e.1.jobsEnqueued = 1) &&
      (s.db.scheduling.schedules.get? 2).all fun r => r.claim.all fun c =>
        (firing s.db 2 r.toScheduleRow c [60000000]).all fun d =>
          keyHolder s.db.toCore ((r.target.fieldText? "queue").getD "") (occurrenceKey 2 d) = none) = true := by
    decide +kernel
  obtain ⟨s, run, there⟩ := System.plays_run anyCall played fun _ _ _ => trivial
  obtain ⟨fired, free⟩ := Bool.and_eq_true _ _ |>.mp there
  obtain ⟨⟨answer, db'⟩, call, fired⟩ := (Option.any_eq_true _ _).mp fired
  replace call := toOption_eq_some.mp call
  simp only [Bool.and_eq_true, decide_eq_true_eq] at fired
  obtain ⟨owns, added⟩ := (fired_occurrences_own_jobs ⟨0, run⟩ call fired.1).mpr fun r claim stored _ current _ d fires => by
    have held := (currentClaim_eq_some.mp current).1
    replace stored : s.db.scheduling.schedules.get? 2 = some r := stored
    simp only [stored, held, Option.all_some, List.all_eq_true, decide_eq_true_eq] at free
    exact free d fires
  exact ⟨s, answer, db', call, fired.2, owns, by rw [added, fired.2]⟩

/-- A producer that used the key before gives its job to the occurrence. -/
theorem fired_occurrences_own_jobs_taken : ∃ (s : System) (answer : ActionResult) (db' : Db),
    System.Reachable .digits anyCall s ∧
    fireSchedule (.alone .digits 60000000 9) firstFire s.db = .ok (answer, db') ∧ answer.replayed = false ∧
    answer.jobsEnqueued = 1 ∧ addedTo s.db.jobs db'.jobs = 0 ∧
    ¬OwnsJobs (.alone .digits 60000000 9) firstFire s.db db' := by
  have played : System.plays .digits (firstMinute ++ [(60000000, .enqueue { EnqueueArgs.simple "q" with
      idempotencyKey := some (occurrenceKey 2 60000000) })]) (.installed .digits 0) (fun s =>
      (fireSchedule (.alone .digits 60000000 9) firstFire s.db).toOption.any fun e =>
        e.1.replayed = false && e.1.jobsEnqueued = 1 && addedTo s.db.jobs e.2.jobs = 0 &&
        s.db.scheduling.occurrences.get? (2, 60000000) = none &&
        (e.2.scheduling.occurrences.get? (2, 60000000)).any fun o => o.outcome = .fired &&
          o.jobId.any fun j => (s.db.jobs.get? j).isSome) = true := by decide +kernel
  obtain ⟨s, run, there⟩ := System.plays_run anyCall played fun _ _ _ => trivial
  obtain ⟨⟨answer, db'⟩, call, fired⟩ := (Option.any_eq_true _ _).mp there
  simp only [Bool.and_eq_true, decide_eq_true_eq] at fired
  obtain ⟨⟨⟨⟨fresh, one⟩, none⟩, absent⟩, fired⟩ := fired
  obtain ⟨o, there, fired⟩ := (Option.any_eq_true _ _).mp fired
  obtain ⟨outcome, fired⟩ := Bool.and_eq_true _ _ |>.mp fired
  obtain ⟨j, named, old⟩ := (Option.any_eq_true _ _).mp fired
  refine ⟨s, answer, db', ⟨0, run⟩, toOption_eq_some.mp call, fresh, one, none, fun owns => ?_⟩
  obtain ⟨_, _, _, _, _, own, -⟩ := owns 60000000 o j absent there (of_decide_eq_true outcome) named
  rw [own.new] at old
  cases old

end Taskq
