import Taskq.Lifecycle.SchedulePaths

/-! What one fire call does: it moves the cursor of its schedule once, adds occurrences of its own
schedule only, and records every job that it enqueues under the occurrence that caused it. -/
namespace Taskq
open Relational

variable {env : Env} {db db' mid : Db} {id decision : Uuid} {s : Schedule} {claim : ScheduleClaim}
  {a : FireArgs} {answer : ActionResult}

section Check

/-- Occurrences that pass the order check ascend from `previous` on and are due at the claim. -/
theorem orderedAndDue_iff {asOf : Time} {previous : Option Time} {dues : List Time}
    (ordered : orderedAndDue asOf previous dues = true) :
    (∀ d ∈ dues, d ≤ asOf ∧ ∀ p ∈ previous, p < d) ∧ dues.Pairwise (· < ·) := by
  induction dues generalizing previous with
  | nil => simp
  | cons due rest ih =>
    simp only [orderedAndDue, Bool.and_eq_true, decide_eq_true_eq] at ordered
    obtain ⟨⟨within, after⟩, rest⟩ := ordered
    obtain ⟨later, sorted⟩ := ih rest
    have first : ∀ p ∈ previous, p < due := by
      intro p member
      rw [Option.mem_def.mp member] at after
      simpa using after
    refine ⟨fun d member => ?_, List.pairwise_cons.mpr ⟨fun d member => ?_, sorted⟩⟩
    · obtain rfl | member := List.mem_cons.mp member
      · exact ⟨within, first⟩
      · exact ⟨(later d member).1, fun p here => (first p here).trans ((later d member).2 due rfl)⟩
    · exact (later d member).2 due rfl

theorem le_of_head? {start : Time} {dues : List Time} (sorted : dues.Pairwise (· < ·))
    (head : dues.head?.all (start ≤ ·) = true) : ∀ d ∈ dues, start ≤ d := by
  cases dues with
  | nil => simp
  | cons due rest =>
    have first : start ≤ due := by simpa using head
    rintro d (_ | ⟨_, member⟩)
    · exact first
    · exact first.trans ((List.pairwise_cons.mp sorted).1 d member).le

theorem lt_of_getLast? {stop : Time} {dues : List Time} (sorted : dues.Pairwise (· < ·))
    (last : dues.getLast?.all (· < stop) = true) : ∀ d ∈ dues, d < stop := by
  intro d member
  have nonempty : dues ≠ [] := List.ne_nil_of_mem member
  rw [List.getLast?_eq_some_getLast nonempty] at last
  have bound : dues.getLast nonempty < stop := by simpa using last
  have split := List.dropLast_append_getLast nonempty
  rw [← split] at member sorted
  obtain front | back := List.mem_append.mp member
  · exact ((List.pairwise_append.mp sorted).2.2 d front _ (by simp)).trans bound
  · rw [List.mem_singleton.mp back]
    exact bound

/-- What a fire call has shown before it changes anything. -/
structure Accepted (r : ScheduleRow) (claim : ScheduleClaim) (a : FireArgs) : Prop where
  forward : r.nextFireAt < a.nextFireAt
  compiled : a.occurrences ≠ [] → r.initialized = true
  first : r.initialized = false → claim.asOf < a.nextFireAt
  sorted : a.occurrences.Pairwise (· < ·)
  due : ∀ d ∈ a.occurrences, r.nextFireAt ≤ d ∧ d ≤ claim.asOf ∧ d < a.nextFireAt

theorem checkFire_accepted {r : ScheduleRow} {outcome : ActionOutcome}
    (run : checkFire r claim a = .ok outcome) : Accepted r claim a := by
  simp only [checkFire, seq_eq_ok, ensure_eq_ok] at run
  obtain ⟨⟨⟩, ⟨-, forward⟩, ⟨⟩, ordered, run⟩ := run
  obtain ⟨due, sorted⟩ := orderedAndDue_iff ordered
  dsimp only [fireOutcome] at run
  split at run
  · rename_i raw
    simp only [seq_eq_ok, ensure_eq_ok] at run
    obtain ⟨⟨⟩, ⟨empty, beyond⟩, -⟩ := run
    have none := List.length_eq_zero_iff.mp empty
    exact ⟨forward, fun some => absurd none some, fun _ => beyond, sorted, by simp [none]⟩
  · rename_i compiled
    have compiled : r.initialized = true := by simpa using compiled
    refine ⟨forward, fun _ => compiled, fun raw => by simp [raw] at compiled, sorted, fun d member => ?_⟩
    have within := (due d member).1
    split at run <;> simp only [seq_eq_ok, ensure_eq_ok] at run
    · obtain ⟨⟨⟩, ⟨empty, -⟩, -⟩ := run
      rw [List.length_eq_zero_iff.mp empty] at member
      cases member
    · obtain ⟨⟨⟩, ⟨-, head, beyond⟩, -⟩ := run
      exact ⟨le_of_head? sorted head d member, within, within.trans_lt beyond⟩
    · obtain ⟨⟨⟩, ⟨-, -, head, last, -⟩, -⟩ := run
      exact ⟨le_of_head? sorted (by simp [head]) d member, within, lt_of_getLast? sorted last d member⟩

end Check

section Occurrences

/-- The schedule runs the janitor instead of enqueueing a job. -/
def maintains (r : ScheduleRow) : Prop := r.target.fieldText? "kind" = some "maintenance"

/-- What performing these occurrences of a schedule does to occurrences and jobs. -/
structure Performs (id : Uuid) (r : ScheduleRow) (dues : List Time) (db db' : Db) : Prop where
  schedules : db'.scheduling.schedules = db.scheduling.schedules
  added : ∀ key o, db'.scheduling.occurrences.get? key = some o →
    db.scheduling.occurrences.get? key = some o ∨ key.1 = id ∧ key.2 ∈ dues
  kept : ¬maintains r → ∀ key o, db.scheduling.occurrences.get? key = some o →
    db'.scheduling.occurrences.get? key = some o
  rows : ¬maintains r → ∀ j job, db.jobs.get? j = some job → db'.jobs.get? j = some job
  jobs : ∀ j job, db.jobs.get? j = none → db'.jobs.get? j = some job →
    ¬maintains r ∧ job.queue = (r.target.fieldText? "queue").getD "" ∧ ∃ due ∈ dues, ∃ o,
      db.scheduling.occurrences.get? (id, due) = none ∧
        db'.scheduling.occurrences.get? (id, due) = some o ∧ o.jobId = some j

theorem Performs.refl (id : Uuid) (r : ScheduleRow) (db : Db) : Performs id r [] db db :=
  ⟨rfl, fun _ _ h => .inl h, fun _ _ _ h => h, fun _ _ _ h => h, fun _ _ absent here => nomatch absent.symm.trans here⟩

theorem Performs.widen {r : ScheduleRow} {dues dues' : List Time} (p : Performs id r dues db db')
    (wider : dues ⊆ dues') : Performs id r dues' db db' := by
  refine ⟨p.schedules, fun key o h => ?_, p.kept, p.rows, fun j job absent here => ?_⟩
  · exact (p.added key o h).imp_right (And.imp_right (wider ·))
  · obtain ⟨enqueues, queue, due, member, rest⟩ := p.jobs j job absent here
    exact ⟨enqueues, queue, due, wider member, rest⟩

theorem Performs.trans {r : ScheduleRow} {due : Time} {dues : List Time}
    (first : Performs id r [due] db mid) (rest : Performs id r dues mid db') :
    Performs id r (due :: dues) db db' := by
  refine ⟨rest.schedules.trans first.schedules, fun key o h => ?_, fun job key o h => ?_,
    fun enqueues j job h => rest.rows enqueues j job (first.rows enqueues j job h), fun j job absent here => ?_⟩
  · obtain old | ⟨own, member⟩ := rest.added key o h
    · exact (first.added key o old).imp_right (And.imp_right fun member => by simp_all)
    · exact .inr ⟨own, List.mem_cons_of_mem _ member⟩
  · exact rest.kept job key o (first.kept job key o h)
  · cases early : mid.jobs.get? j with
    | none =>
      obtain ⟨enqueues, queue, d, member, o, gone, there, named⟩ := rest.jobs j job early here
      refine ⟨enqueues, queue, d, List.mem_cons_of_mem _ member, o, ?_, there, named⟩
      cases old : db.scheduling.occurrences.get? (id, d) with
      | none => rfl
      | some o' => cases gone.symm.trans (first.kept enqueues _ o' old)
    | some job' =>
      obtain ⟨enqueues, queue, d, member, o, gone, there, named⟩ := first.jobs j job' absent early
      cases here.symm.trans (rest.rows enqueues j job' early)
      exact ⟨enqueues, queue, d, by simp_all, o, gone, rest.kept enqueues _ o there, named⟩

/-- An enqueue call adds at most the job that it returns. -/
theorem Enqueued.jobs {args : EnqueueArgs} {answer : Uuid × Bool}
    (outcome : Enqueued env args db answer db') {j : Uuid} (absent : db.jobs.get? j = none)
    (here : db'.jobs.get? j ≠ none) : answer = (j, true) := by
  obtain ⟨id, fresh⟩ := answer
  cases fresh with
  | false =>
    cases outcome
    exact absurd absent here
  | true =>
    obtain ⟨-, -, -, -, others⟩ := outcome.created_row
    by_cases same : j = id
    · rw [same]
    · exact absurd ((others j same).trans absent) here

theorem occurrenceArgs_eq_ok {s : ScheduleRow} {occurrence : Uuid} {due : Time} {late : ℤ} {args : EnqueueArgs}
    (made : occurrenceArgs env id s claim occurrence due late = .ok args) :
    args.queue = (s.target.fieldText? "queue").getD "" ∧ args.workflowId = none ∧
      args.idempotencyKey = some (occurrenceKey id due) ∧
      args.headers = (s.target.field? "headers").map fun headers => headers.merge (.build [("taskq_schedule",
        scheduleHeader env id s claim occurrence due late)]) := by
  simp only [occurrenceArgs, seq_eq_ok] at made
  obtain ⟨_, -, _, -, _, -, _, -, _, -, finish⟩ := made
  cases finish
  exact ⟨rfl, rfl, rfl, rfl⟩

/-- An enqueue call leaves the rows that are there. -/
theorem Enqueued.row_stays {args : EnqueueArgs} {answer : Uuid × Bool} (outcome : Enqueued env args db answer db')
    {j : Uuid} {row : Job} (stored : db.jobs.get? j = some row) : db'.jobs.get? j = some row := by
  obtain ⟨id, fresh⟩ := answer
  cases fresh with
  | false =>
    cases outcome
    exact stored
  | true =>
    obtain ⟨-, -, absent, -, others⟩ := outcome.created_row
    have apart : j ≠ id := fun same => nomatch (same ▸ stored).symm.trans absent
    exact (others j apart).trans stored

/-- What one performed occurrence does besides its own row; `job` is what it enqueued. -/
structure Performed (r : ScheduleRow) (job : Option Uuid) (db db' : Db) : Prop where
  schedules : db'.scheduling.schedules = db.scheduling.schedules
  fewer : ∀ key o, db'.scheduling.occurrences.get? key = some o →
    db.scheduling.occurrences.get? key = some o
  kept : ¬maintains r → db'.scheduling.occurrences = db.scheduling.occurrences
  rows : ¬maintains r → ∀ j job, db.jobs.get? j = some job → db'.jobs.get? j = some job
  jobs : ∀ j row, db.jobs.get? j = none → db'.jobs.get? j = some row →
    ¬maintains r ∧ row.queue = (r.target.fieldText? "queue").getD "" ∧ job = some j

theorem janitor_performed {r : ScheduleRow} {report : JanitorReport}
    (run : janitor env db = .ok (report, db')) (maintenance : maintains r) :
    Performed r none db db' := by
  obtain ⟨mid, path, -, rfl⟩ := janitor_cases run
  have scheduling : mid.scheduling = db.scheduling := congrArg Prod.fst path.settings
  have schedules : mid.scheduling.schedules = db.scheduling.schedules := by rw [scheduling]
  refine ⟨schedules, fun key o here => ?_, fun job => absurd maintenance job, fun job => absurd maintenance job,
    fun j row absent here => ?_⟩
  · rw [← scheduling]
    simp only [pruneDecisions, pruneOccurrences, Table.get?_keep] at here
    exact (Option.filter_eq_some_iff.mp here).1
  · have gone : mid.jobs.get? j = none := path.steps.absent (fun p victims => by
      obtain ⟨victim, same⟩ := victims
      cases same) absent
    cases here.symm.trans gone

theorem performFired_performed {occurrence : Uuid} {due : Time} {late : ℤ} {job : Option Uuid}
    {outcome : OccurrenceOutcome}
    (run : performFired env id s.toScheduleRow claim occurrence due late outcome db = .ok (job, db')) :
    Performed s.toScheduleRow job db db' := by
  unfold performFired performOccurrence at run
  split at run
  · split at run
    · rename_i maintenance
      simp only [seq_eq_ok] at run
      obtain ⟨-, -, ⟨report, last⟩, clean, finish⟩ := run
      cases finish
      exact janitor_performed clean maintenance
    · rename_i enqueues
      simp only [seq_eq_ok] at run
      obtain ⟨args, made, ⟨⟨created, fresh⟩, last⟩, enqueued, finish⟩ := run
      cases finish
      have scheduling : last.scheduling = db.scheduling :=
        congrArg Prod.fst (enqueue_path enqueued).settings
      have outcome := enqueue_enqueued enqueued
      refine ⟨by rw [scheduling], by rw [scheduling]; exact fun _ _ h => h, fun _ => by rw [scheduling],
        fun _ j row stored => outcome.row_stays stored, fun j row absent here => ⟨enqueues, ?_⟩⟩
      cases outcome.jobs absent (by simp [here])
      obtain ⟨-, -, -, ⟨job, q, m, there, shape, -⟩, -⟩ := outcome.created_row
      cases here.symm.trans there
      exact ⟨by rw [shape]; exact (occurrenceArgs_eq_ok made).1, rfl⟩
  · cases run
    exact ⟨rfl, fun _ _ h => h, fun _ => rfl, fun _ _ _ h => h, fun j row absent here => by cases absent.symm.trans here⟩

theorem fireOccurrence_performs {due : Time} {counts counts' : FireCounts}
    (run : fireOccurrence env id s.toScheduleRow claim decision due counts db = .ok (counts', db')) :
    Performs id s.toScheduleRow [due] db db' := by
  unfold fireOccurrence at run
  split at run
  · cases run
    exact (Performs.refl id _ db).widen (by simp)
  · rename_i free
    have free : db.scheduling.occurrences.get? (id, due) = none := by simpa using free
    simp only [newUuid, seq_eq_ok] at run
    obtain ⟨late, -, ⟨job, last⟩, perform, finish⟩ := run
    cases finish
    have done := performFired_performed perform
    -- the row of the occurrence is there while it is performed, and is written again afterwards
    have before (key : Uuid × Time) (apart : key ≠ (id, due)) (o : Occurrence) :
        last.scheduling.occurrences.get? key = some o →
          db.scheduling.occurrences.get? key = some o := fun here =>
      (Table.get?_put_of_ne _ _ apart).symm.trans (done.fewer key o here)
    refine ⟨done.schedules, fun key o here => ?_, fun enqueues key o here => ?_, done.rows,
      fun j row absent here => ?_⟩
    · by_cases own : key = (id, due)
      · exact .inr (by simp [own])
      · exact .inl (before key own o ((Table.get?_put_of_ne _ _ own).symm.trans here))
    · have apart : key ≠ (id, due) := fun same => by cases (same ▸ here).symm.trans free
      refine (Table.get?_put_of_ne _ _ apart).trans ?_
      rw [done.kept enqueues]
      exact (Table.get?_put_of_ne _ _ apart).trans here
    · obtain ⟨enqueues, queue, rfl⟩ := done.jobs j row absent here
      exact ⟨enqueues, queue, due, by simp, _, free, Table.get?_put_self _ _ _, rfl⟩

theorem fireOccurrences_performs {dues : List Time} {counts counts' : FireCounts}
    (run : fireOccurrences env id s.toScheduleRow claim decision dues counts db = .ok (counts', db')) :
    Performs id s.toScheduleRow dues db db' := by
  induction dues generalizing db counts with
  | nil =>
    cases run
    exact .refl id _ _
  | cons due dues ih =>
    simp only [fireOccurrences, seq_eq_ok] at run
    obtain ⟨⟨counted, fired⟩, first, rest⟩ := run
    exact (fireOccurrence_performs first).trans (ih rest)

theorem admissions_unlinked {next : Uuid} : admissions next ⊆ unlinked := by
  rintro l (rfl | ⟨w, rfl⟩ | ⟨id, -, rfl⟩) other admission
  · exact Label.noConfusion
  · exact Label.noConfusion
  · exact Label.noConfusion

/-- Firing an occurrence configures nothing, and admissions are at most cleaned up. -/
theorem performFired_keeps {r : ScheduleRow} {occurrence : Uuid} {due : Time} {late : ℤ} {job : Option Uuid}
    {outcome : OccurrenceOutcome}
    (run : performFired env id r claim occurrence due late outcome db = .ok (job, db')) :
    db'.queues = db.queues ∧ Prunes env db db' := by
  unfold performFired performOccurrence at run
  split at run
  · split at run
    · simp only [seq_eq_ok] at run
      obtain ⟨-, -, ⟨report, cleaned⟩, clean, finish⟩ := run
      cases finish
      obtain ⟨mid, registers, prunes, rfl⟩ := janitor_cases clean
      exact ⟨congrArg (·.2.1) registers.settings, prunes.trans (.of_eq rfl rfl)⟩
    · simp only [seq_eq_ok] at run
      obtain ⟨args, -, ⟨⟨created, fresh⟩, enqueued⟩, enqueue', finish⟩ := run
      cases finish
      have path := enqueue_path enqueue'
      exact ⟨congrArg (·.2.1) path.settings, .of_path path admissions_unlinked⟩
  · cases run
    exact ⟨rfl, .refl _⟩

theorem fireOccurrence_keeps {r : ScheduleRow} {due : Time} {counts counts' : FireCounts}
    (run : fireOccurrence env id r claim decision due counts db = .ok (counts', db')) :
    db'.queues = db.queues ∧ Prunes env db db' := by
  unfold fireOccurrence at run
  split at run
  · cases run
    exact ⟨rfl, .refl _⟩
  · simp only [newUuid, seq_eq_ok] at run
    obtain ⟨late, -, ⟨job, last⟩, perform, finish⟩ := run
    cases finish
    obtain ⟨queues, prunes⟩ := performFired_keeps perform
    have performed : Prunes env { db with nextUuid := db.nextUuid + 1 } last := prunes.after_aside rfl rfl
    exact ⟨queues, (Prunes.mint env db).trans (performed.trans (.of_eq rfl rfl))⟩

theorem fireOccurrences_keeps {r : ScheduleRow} {dues : List Time} {counts counts' : FireCounts}
    (run : fireOccurrences env id r claim decision dues counts db = .ok (counts', db')) :
    db'.queues = db.queues ∧ Prunes env db db' := by
  induction dues generalizing db counts with
  | nil =>
    cases run
    exact ⟨rfl, .refl _⟩
  | cons due dues ih =>
    simp only [fireOccurrences, seq_eq_ok] at run
    obtain ⟨⟨counted, fired⟩, first, rest⟩ := run
    obtain ⟨queues, prunes⟩ := fireOccurrence_keeps first
    obtain ⟨queues', prunes'⟩ := ih rest
    exact ⟨queues'.trans queues, prunes.trans prunes'⟩

end Occurrences

section Fire

theorem fireSchedule_keeps (run : fireSchedule env a db = .ok (answer, db')) :
    db'.queues = db.queues ∧ Prunes env db db' := by
  have minted := Prunes.mint env db
  simp only [fireSchedule, newUuid, seq_eq_ok] at run
  obtain ⟨-, -, -, -, run⟩ := run
  split at run
  · cases run
  · split at run
    · cases run
      exact ⟨rfl, minted⟩
    · split at run
      · cases run
        exact ⟨rfl, minted⟩
      · simp only [fireUnderClaim, seq_eq_ok] at run
        obtain ⟨outcome, -, ⟨counts, fired⟩, fire, written, write, finish⟩ := run
        cases finish
        obtain ⟨_, -, rfl⟩ := writeSchedule_frame write
        obtain ⟨queues, prunes⟩ := fireOccurrences_keeps fire
        exact ⟨queues, minted.trans (prunes.trans (.of_eq rfl rfl))⟩

/-- A fire call that was not answered from the record and not refused. -/
inductive FireRun (env : Env) (a : FireArgs) (answer : ActionResult) (db db' : Db) : Prop
  | intro {s stored : Schedule} {claim : ScheduleClaim} {result : StoredAction} {mid : Db}
      {decision : Uuid} {d : Decision} (found : db.scheduling.schedules.get? a.scheduleId = some s)
      (current : currentClaim env s.toScheduleRow a.token a.definitionVersion = some claim)
      (accepted : Accepted s.toScheduleRow claim a)
      (performs : Performs a.scheduleId s.toScheduleRow a.occurrences db mid)
      (later : db.nextUuid ≤ mid.nextUuid)
      (answered : answer = result.result false a.scheduleId)
      (row : stored.toScheduleRow =
        advanced env s.toScheduleRow a ⟨a.token, a.hash env, result⟩)
      (after : db' = (mid.putDecision decision d).putSchedule a.scheduleId stored)

/-- A fire call is answered from the record, refused, or carried out under its own lease. -/
theorem fireSchedule_runs (run : fireSchedule env a db = .ok (answer, db')) :
    (db' = { db with nextUuid := db.nextUuid + 1 } ∧
      ∃ s, db.scheduling.schedules.get? a.scheduleId = some s ∧
        (replayedAction a.scheduleId s.toScheduleRow a.token (a.hash env) = some answer ∨
          replayedAction a.scheduleId s.toScheduleRow a.token (a.hash env) = none ∧
          currentClaim env s.toScheduleRow a.token a.definitionVersion = none ∧
          answer = staleResult a.scheduleId s.toScheduleRow)) ∨
      FireRun env a answer db db' := by
  simp only [fireSchedule, newUuid, seq_eq_ok] at run
  obtain ⟨-, -, -, -, run⟩ := run
  split at run
  · cases run
  · rename_i s found
    split at run
    · rename_i replayed
      cases run
      exact .inl ⟨rfl, s, found, .inl replayed⟩
    · rename_i fresh
      split at run
      · rename_i refused
        cases run
        exact .inl ⟨rfl, s, found, .inr ⟨fresh, refused, rfl⟩⟩
      · rename_i claim current
        simp only [fireUnderClaim, seq_eq_ok] at run
        obtain ⟨outcome, check, ⟨counts, mid⟩, fire, written, write, finish⟩ := run
        cases finish
        obtain ⟨stored, row, rfl⟩ := writeSchedule_frame write
        have performs := fireOccurrences_performs fire
        have later := (fireOccurrences_trail fire le_rfl).steps.nextUuid_le
        exact .inr (.intro found current (checkFire_accepted check)
          ⟨performs.schedules, performs.added, performs.kept, performs.rows, performs.jobs⟩
          ((Nat.le_succ _).trans later) rfl row rfl)

/-- A fire call moves the cursor of its own schedule, once. -/
theorem fireSchedule_calendar (run : fireSchedule env a db = .ok (answer, db')) :
    CalendarSteps env.now {(a.scheduleId, .fire a.occurrences)} db.calendar db'.calendar := by
  obtain ⟨rfl, -⟩ | fired := fireSchedule_runs run
  · exact .quiet (.mint (Nat.le_succ _))
  · cases fired with
    | @intro s stored claim result mid decision d found current accepted performs later _ row after =>
      subst after
      obtain ⟨held, -⟩ := currentClaim_eq_some.mp current
      have token := (currentClaim_eq_some.mp current).2.2.2.1
      have minted : CalendarSteps env.now {(a.scheduleId, .fire a.occurrences)} db.calendar
          ⟨db.scheduling.schedules, mid.nextUuid⟩ := .quiet (.mint later)
      refine minted.trans ?_
      rw [← performs.schedules] at found ⊢
      refine CalendarSteps.change (.write (by simp) found ?_) rfl
      rw [row]
      exact .fire s.cursor claim a.occurrences a.nextFireAt _ held token.symm accepted.forward
        accepted.compiled accepted.first accepted.due

end Fire

end Taskq
