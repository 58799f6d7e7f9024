import Taskq.Contract.Occurrences
import Taskq.Invariants.Cursors

/-! Overlaps: where a schedule forbids them, no occurrence gets a job while a job of an earlier one is live, and an
occurrence that gets none is recorded with the reason, unless its key already has a job. -/
namespace Taskq
open Relational

variable {env : Env} {a : FireArgs} {db db' mid next : Db} {id decision j : Uuid} {r : Schedule} {claim : ScheduleClaim}
  {due : Time} {counts counts' : FireCounts} {site : Site} {s t u : System} {answer : ActionResult}

section Turn

/-- While a call is carried out, an occurrence takes the tables from `mid` to `next`. -/
inductive FireTurn (env : Env) (a : FireArgs) (db : Db) (r : Schedule) (claim : ScheduleClaim) (due : Time)
    (mid next : Db) : Prop
  | intro {outcome : ActionOutcome} {before after : List Time} {counts counts' : FireCounts}
      (found : db.scheduling.schedules.get? a.scheduleId = some r)
      (unseen : replayedAction a.scheduleId r.toScheduleRow a.token (a.hash env) = none)
      (current : currentClaim env r.toScheduleRow a.token a.definitionVersion = some claim)
      (check : checkFire r.toScheduleRow claim a = .ok outcome) (split : a.occurrences = before ++ due :: after)
      (earlier : fireOccurrences env a.scheduleId r.toScheduleRow claim db.nextUuid before ⟨0, 0, 0, 0⟩
        { db with nextUuid := db.nextUuid + 1 } = .ok (counts, mid))
      (turn : fireOccurrence env a.scheduleId r.toScheduleRow claim db.nextUuid due counts mid = .ok (counts', next))

/-- The step from one state of the tables to another enqueues a job. -/
def Enqueues (db db' : Db) : Prop := ∃ j, db.jobs.get? j = none ∧ db'.jobs.get? j ≠ none

/-- An earlier fire call of the run enqueued the job for an occurrence of the schedule. -/
def Dispatched (site : Site) (start s : System) (id j : Uuid) : Prop :=
  ∃ t u env a, System.Run site clockForward start t ∧ t.clock ≤ env.now ∧
    System.Step site env (.fireSchedule a) t u ∧ System.Run site clockForward u s ∧
    a.scheduleId = id ∧ t.db.jobs.get? j = none ∧ u.db.jobs.get? j ≠ none

/-- What the row of an occurrence says of it: the call enqueued its job, or ran the janitor in place of one; or
it was too late; or the job of an earlier occurrence was live. -/
def Explained (a : FireArgs) (db db' : Db) (r : Schedule) (claim : ScheduleClaim) (due : Time) (mid : Db)
    (o : Occurrence) : Prop :=
  match o.outcome with
  | .fired => maintains r.toScheduleRow ∧ o.jobId = none ∨
      ∃ j, o.jobId = some j ∧ db.jobs.get? j = none ∧ db'.jobs.get? j ≠ none
  | .lateSkipped => o.jobId = none ∧ tooLate r.toScheduleRow claim due = true
  | .overlapSkipped => o.jobId = none ∧ ∃ d o' j job, d < due ∧
      mid.scheduling.occurrences.get? (a.scheduleId, d) = some o' ∧ o'.jobId = some j ∧
      mid.jobs.get? j = some job ∧ job.status.active = true

/-- Every occurrence of a call takes its turn and is recorded with what became of it. -/
def Accounts (env : Env) (a : FireArgs) (db db' : Db) : Prop :=
  ∀ due ∈ a.occurrences, ∃ r claim mid next o, FireTurn env a db r claim due mid next ∧
    db'.scheduling.occurrences.get? (a.scheduleId, due) = some o ∧ Explained a db db' r claim due mid o

end Turn

section Order

variable {r : Schedule} {dues later : List Time} {now : Time}

theorem fireOccurrences_append {q : ScheduleRow} {p : FireCounts × Db} :
    fireOccurrences env id q claim decision (dues ++ later) counts db = .ok p ↔
      ∃ m, fireOccurrences env id q claim decision dues counts db = .ok m ∧
        fireOccurrences env id q claim decision later m.1 m.2 = .ok p := by
  induction dues generalizing counts db with
  | nil => simp [fireOccurrences]
  | cons due dues ih =>
    simp only [List.cons_append, fireOccurrences, seq_eq_ok, ih]
    constructor
    · rintro ⟨m, first, n, rest, last⟩
      exact ⟨n, ⟨m, first, rest⟩, last⟩
    · rintro ⟨n, ⟨m, first, rest⟩, last⟩
      exact ⟨m, first, n, rest, last⟩

/-- A recorded occurrence is due before those that a call selects. -/
theorem Elapsed.lt_due {outcome : ActionOutcome} (elapsed : Elapsed now db)
    (found : db.scheduling.schedules.get? a.scheduleId = some r)
    (check : checkFire r.toScheduleRow claim a = .ok outcome) (selected : due ∈ a.occurrences) {d : Time}
    (recorded : d ∈ db.dues a.scheduleId) : d < due := by
  have accepted := checkFire_accepted check
  have ready : r.initialized = true := accepted.compiled (List.ne_nil_of_mem selected)
  exact ((elapsed.past _ _ found).compiled ready d recorded).trans_le (accepted.due due selected).1

/-- An occurrence has no row when its turn comes. -/
theorem FireTurn.fresh (turn : FireTurn env a db r claim due mid next) (elapsed : Elapsed now db) :
    mid.scheduling.occurrences.get? (a.scheduleId, due) = none := by
  obtain ⟨found, -, -, check, split, earlier, -⟩ := turn
  have selected : due ∈ a.occurrences := by simp [split]
  have sorted := (checkFire_accepted check).sorted
  rw [split] at sorted
  cases there : mid.scheduling.occurrences.get? (a.scheduleId, due) with
  | none => rfl
  | some o =>
    obtain old | ⟨-, before⟩ := (fireOccurrences_performs earlier).added _ o there
    · exact absurd (elapsed.lt_due found check selected ⟨o, old⟩) (lt_irrefl due)
    · exact absurd ((List.pairwise_append.mp sorted).2.2 due before due (by simp)) (lt_irrefl due)

/-- The row that an occurrence gets in its turn. -/
theorem fireOccurrence_row {q : ScheduleRow} (fresh : db.scheduling.occurrences.get? (id, due) = none)
    (run : fireOccurrence env id q claim decision due counts db = .ok (counts', db')) :
    ∃ o, db'.scheduling.occurrences.get? (id, due) = some o ∧ o.createdAt = env.now ∧
      o.outcome = occurrenceOutcome db id q due (max 0 ((claim.asOf - due) / 1000000)) ∧
      (o.outcome ≠ .fired → o.jobId = none) ∧ (o.outcome = .fired → ¬maintains q → o.jobId ≠ none) := by
  unfold fireOccurrence at run
  rw [if_neg (by simp [fresh])] at run
  simp only [newUuid, seq_eq_ok] at run
  obtain ⟨late, lateness, ⟨job, last⟩, perform, finish⟩ := run
  obtain rfl := lateness_eq_ok lateness
  cases finish
  refine ⟨_, Table.get?_put_self _ _ _, rfl, rfl, fun skipped => ?_, fun fires works => ?_⟩
  · unfold performFired at perform
    rw [if_neg skipped] at perform
    cases perform
    rfl
  · have works : q.target.fieldText? "kind" ≠ some "maintenance" := works
    unfold performFired performOccurrence at perform
    rw [if_pos fires, if_neg works] at perform
    simp only [seq_eq_ok] at perform
    obtain ⟨_, -, ⟨⟨created, new⟩, _⟩, -, finish⟩ := perform
    cases finish
    simp

end Order

section Overlap

variable {now : Time}

/-- No job is enqueued in the turn of an occurrence while a job of an earlier one is live. -/
theorem FireTurn.apart (turn : FireTurn env a db r claim due mid next) (elapsed : Elapsed now db)
    (target : maintains r.toScheduleRow ∨ r.target.fieldText? "kind" = some "job") (forbids : r.overlapPolicy = .forbid)
    (enqueues : Enqueues mid next) {job : Job}
    (linked : (∃ d o, db.scheduling.occurrences.get? (a.scheduleId, d) = some o ∧ o.jobId = some j) ∨
      db.jobs.get? j = none) (stored : mid.jobs.get? j = some job) : job.status.active = false := by
  obtain ⟨found, -, -, check, split, earlier, run⟩ := turn
  have selected : due ∈ a.occurrences := by simp [split]
  have sorted := (checkFire_accepted check).sorted
  rw [split] at sorted
  have performs := fireOccurrences_performs earlier
  obtain ⟨k, absent, there⟩ := enqueues
  obtain ⟨row, here⟩ := Option.ne_none_iff_exists'.mp there
  have works := ((fireOccurrence_performs run).jobs k row absent here).1
  obtain ⟨d, o, before, recorded, named⟩ : ∃ d o, d < due ∧
      mid.scheduling.occurrences.get? (a.scheduleId, d) = some o ∧ o.jobId = some j := by
    obtain ⟨d, o, old, named⟩ | new := linked
    · exact ⟨d, o, elapsed.lt_due found check selected ⟨o, old⟩, performs.kept works _ o old, named⟩
    · obtain ⟨-, -, d, member, o, -, recorded, named⟩ := performs.jobs j job new stored
      exact ⟨d, o, (List.pairwise_append.mp sorted).2.2 d member due (by simp), recorded, named⟩
  cases fireOccurrence_step (target.resolve_left works) run with
  | recorded => exact absurd absent there
  | skipped _ _ _ _ jobs => exact absurd (jobs ▸ absent) there
  | fired _ opened =>
    by_contra live
    have blocked : overlaps mid a.scheduleId due = true :=
      overlaps_iff.mpr ⟨d, o, j, job, before, recorded, named, stored, eq_true_of_ne_false live⟩
    simp [opens, forbids, blocked] at opened

/-- The job of an occurrence is linked to it from then on. -/
theorem Dispatched.linked {start : System} (dispatched : Dispatched site start s id j) :
    ∃ d o, s.db.scheduling.occurrences.get? (id, d) = some o ∧ o.jobId = some j := by
  obtain ⟨t, u, env, a, -, -, ⟨-, -, run⟩, later, rfl, absent, there⟩ := dispatched
  obtain ⟨row, here⟩ := Option.ne_none_iff_exists'.mp there
  obtain ⟨answer, run⟩ := map_snd_eq_ok.mp run
  obtain ⟨-, rfl⟩ | ⟨r, claim, counts, mid, -, -, -, -, fire, -, -, -, occurrences, jobs⟩ := fireSchedule_carried run
  · exact absurd absent there
  · obtain ⟨-, -, d, -, o, -, recorded, named⟩ := (fireOccurrences_performs fire).jobs j row absent (jobs ▸ here)
    exact ⟨d, o, later.linked (occurrences ▸ recorded) (by simp [named]), named⟩

end Overlap

section Account

variable {last : Db} {now : Time}

/-- In a call that is carried out every selected occurrence takes its turn, and its row is then kept. -/
theorem Carried.turn (carried : Carried env a r claim counts last db db') (elapsed : Elapsed now db)
    (selected : due ∈ a.occurrences) : ∃ mid next o, FireTurn env a db r claim due mid next ∧
      db'.scheduling.occurrences.get? (a.scheduleId, due) = some o ∧
      o.outcome = occurrenceOutcome mid a.scheduleId r.toScheduleRow due (max 0 ((claim.asOf - due) / 1000000)) ∧
      (o.outcome ≠ .fired → o.jobId = none) ∧ (o.outcome = .fired → ¬maintains r.toScheduleRow → o.jobId ≠ none) := by
  obtain ⟨found, unseen, current, check, fire, -, -, -, occurrences, -⟩ := carried
  obtain ⟨before, after, split⟩ := List.append_of_mem selected
  rw [split] at fire
  obtain ⟨⟨counted, mid⟩, earlier, rest⟩ := fireOccurrences_append.mp fire
  simp only [fireOccurrences, seq_eq_ok] at rest
  obtain ⟨⟨counted', next⟩, run, rest⟩ := rest
  have turn : FireTurn env a db r claim due mid next := ⟨found, unseen, current, check, split, earlier, run⟩
  obtain ⟨o, there, new, outcome, shape⟩ := fireOccurrence_row (turn.fresh elapsed) run
  refine ⟨mid, next, o, turn, ?_, outcome, shape⟩
  rw [occurrences]
  exact fireOccurrences_lasting rest there (.inr new.ge)

/-- An occurrence that is skipped is skipped for the reason that its row gives. -/
theorem explained_of_skipped {o : Occurrence}
    (outcome : o.outcome = occurrenceOutcome mid a.scheduleId r.toScheduleRow due (max 0 ((claim.asOf - due) / 1000000)))
    (idle : o.outcome ≠ .fired → o.jobId = none) (skipped : o.outcome ≠ .fired) :
    Explained a db db' r claim due mid o := by
  have late : (r.maxLatenessSeconds.any (· < max 0 ((claim.asOf - due) / 1000000)) = true) =
      (tooLate r.toScheduleRow claim due = true) := rfl
  simp only [occurrenceOutcome, late] at outcome
  unfold Explained
  split_ifs at outcome with behind overlap
  · rw [outcome]
    exact ⟨idle skipped, behind⟩
  · rw [outcome]
    exact ⟨idle skipped, overlaps_iff.mp overlap.2.2⟩
  · exact absurd outcome skipped

/-- A call that is carried out accounts for its occurrences exactly when no live job of the target queue holds the
key of one that fires. -/
theorem Carried.accounts_iff (carried : Carried env a r claim counts last db db') (elapsed : Elapsed now db)
    (target : maintains r.toScheduleRow ∨ r.target.fieldText? "kind" = some "job") :
    Accounts env a db db' ↔ KeysFree env a db := by
  obtain ⟨found, unseen, current, check, fire, -, -, -, occurrences, jobs⟩ := id carried
  have sorted := (checkFire_accepted check).sorted
  have fresh {d : Time} (selected : d ∈ a.occurrences) :
      db.scheduling.occurrences.get? (a.scheduleId, d) = none := by
    cases there : db.scheduling.occurrences.get? (a.scheduleId, d) with
    | none => rfl
    | some o => exact absurd (elapsed.lt_due found check selected ⟨o, there⟩) (lt_irrefl d)
  constructor
  · intro accounts r' claim' found' _ current' job d fires
    cases found.symm.trans found'
    cases current.symm.trans current'
    by_contra held
    have selected := mem_of_firing fires
    obtain ⟨o, j, row, -, there, outcome, named, old, -⟩ := (fireOccurrences_steps job fire).adopts sorted fires held
    obtain ⟨_, _, _, _, o', turn, there', explained⟩ := accounts d selected
    rw [occurrences, there] at there'
    cases there'
    obtain ⟨found', -⟩ := turn
    cases found.symm.trans found'
    rw [Explained, outcome] at explained
    obtain ⟨-, idle⟩ | ⟨j', named', new, -⟩ := explained
    · exact nomatch named.symm.trans idle
    · cases named.symm.trans named'
      exact nomatch old.symm.trans new
  · intro free d selected
    obtain ⟨mid, next, o, turn, there, outcome, idle, linked⟩ := carried.turn elapsed selected
    refine ⟨r, claim, mid, next, o, turn, there, ?_⟩
    by_cases fires : o.outcome = .fired
    · rw [Explained, fires]
      rw [occurrences] at there
      obtain maintenance | job := target
      · obtain old | none := (fireOccurrences_maintains maintenance fire).2 _ o there
        · exact nomatch (fresh selected).symm.trans old
        · exact .inl ⟨maintenance, none⟩
      · have works : ¬maintains r.toScheduleRow := by simp [maintains, job]
        obtain ⟨j, named⟩ := Option.ne_none_iff_exists'.mp (linked fires works)
        obtain ⟨owned, -⟩ := (fireOccurrences_steps job fire).own sorted (free r claim found unseen current job)
        obtain ⟨new, -, -, -, row, -, stored, -⟩ := owned d o j (fresh selected) there named
        exact .inr ⟨j, named, new, by rw [jobs, stored]; simp⟩
    · exact explained_of_skipped outcome idle fires

end Account

section Runs

/-- Calls whose times do not go back are a run. -/
theorem System.play_forward {calls : List (Time × Command)} (run : System.play site calls s = .ok t)
    (order : (s.clock :: calls.map Prod.fst).Pairwise (· ≤ ·)) : System.Run site clockForward s t := by
  induction calls generalizing s with
  | nil =>
    cases run
    exact .start
  | cons call calls ih =>
    obtain ⟨db, first, rest⟩ := seq_eq_ok.mp run
    obtain ⟨wait, later⟩ := List.pairwise_cons.mp order
    have forward : clockForward s (.alone site call.1 (s.xid + 1)) call.2 := wait call.1 (by simp)
    have one : System.Run site clockForward s _ := .step .start forward (.commit rfl (Nat.lt_succ_self s.xid) first)
    exact one.trans (ih rest later)

theorem System.plays_forward {calls : List (Time × Command)} {p : System → Bool} (plays : System.plays site calls s p = true)
    (order : (s.clock :: calls.map Prod.fst).Pairwise (· ≤ ·)) :
    ∃ t, System.Run site clockForward s t ∧ p t = true := by
  unfold System.plays at plays
  split at plays
  · rename_i t run
    exact ⟨t, System.play_forward run order, plays⟩
  · cases plays

/-- The target of a schedule is the janitor or a job. -/
theorem System.Reachable.target {allowed : System → Env → Command → Prop}
    (reachable : System.Reachable site allowed s) (stored : s.db.scheduling.schedules.get? id = some r) :
    maintains r.toScheduleRow ∨ r.target.fieldText? "kind" = some "job" := by
  obtain maintenance | ⟨checked, given, past, -, normal⟩ := reachable.timetabled.targets _ _ stored
  · exact .inl maintenance
  · exact .inr (normalizeTarget_targeted normal).kind

/-- Where overlaps are forbidden, no occurrence gets a job while a job of an earlier occurrence is live; and every
occurrence that gets none is recorded with the reason exactly when no live job holds the key of one that fires. -/
theorem forbidden_overlaps {installed : Time} (run : System.Run site clockForward (.installed site installed) s)
    (found : s.db.scheduling.schedules.get? a.scheduleId = some r) (forbids : r.overlapPolicy = .forbid)
    (call : fireSchedule env a s.db = .ok (answer, db')) (carried : answer.replayed = false ∧ answer.outcome ≠ .stale) :
    (∀ claim due mid next, FireTurn env a s.db r claim due mid next → Enqueues mid next →
      ∀ j job, Dispatched site (.installed site installed) s a.scheduleId j ∨ s.db.jobs.get? j = none →
        mid.jobs.get? j = some job → job.status.active = false) ∧
    (Accounts env a s.db db' ↔ KeysFree env a s.db) := by
  have reachable : System.Reachable site clockForward s := ⟨installed, run⟩
  have target := reachable.target found
  refine ⟨fun claim due mid next turn enqueues j job earlier stored => ?_, ?_⟩
  · exact turn.apart reachable.elapsed target forbids enqueues (earlier.imp_left Dispatched.linked) stored
  · obtain ⟨replayed | stale, -⟩ | ⟨r', claim, counts, last, done⟩ := fireSchedule_carried call
    · exact absurd replayed (by simp [carried.1])
    · exact absurd stale carried.2
    · obtain ⟨found', -⟩ := id done
      cases found.symm.trans found'
      exact done.accounts_iff reachable.elapsed target

/-- The first occurrence has fired, and the schedule is claimed again when the second is due. -/
def twoMinutes : List (Time × Command) :=
  firstMinute ++ [(60000000, .fireSchedule firstFire), (120000000, .claimSchedules (some "w") (some 2) (some 300))]

/-- The fire call of the second occurrence. -/
def secondFire : FireArgs := ⟨2, 10, 1, [120000000], 180000000⟩

/-- While the job of the first minute waits, the second is recorded as an overlap. -/
theorem forbidden_overlaps_second : ∃ (s : System) (answer : ActionResult) (db' : Db) (o : Occurrence),
    fireSchedule (.alone .digits 120000000 9) secondFire s.db = .ok (answer, db') ∧
    Accounts (.alone .digits 120000000 9) secondFire s.db db' ∧
    db'.scheduling.occurrences.get? (2, 120000000) = some o ∧ o.outcome = .overlapSkipped := by
  have played : System.plays .digits twoMinutes (.installed .digits 0) (fun s =>
      (fireSchedule (.alone .digits 120000000 9) secondFire s.db).toOption.any (fun e =>
        e.1.replayed = false && e.1.outcome ≠ .stale &&
        (e.2.scheduling.occurrences.get? (2, 120000000)).any fun o => o.outcome = .overlapSkipped) &&
      (s.db.scheduling.schedules.get? 2).any fun r => r.overlapPolicy = .forbid && r.claim.all fun c =>
        (firing s.db 2 r.toScheduleRow c [120000000]).isEmpty) = true := by
    decide +kernel
  obtain ⟨s, run, there⟩ := System.plays_forward played (by decide)
  obtain ⟨fired, kept⟩ := Bool.and_eq_true _ _ |>.mp there
  obtain ⟨⟨answer, db'⟩, call, fired⟩ := (Option.any_eq_true _ _).mp fired
  obtain ⟨r, stored, kept⟩ := (Option.any_eq_true _ _).mp kept
  simp only [Bool.and_eq_true, decide_eq_true_eq] at fired kept
  obtain ⟨carried, skipped⟩ := fired
  obtain ⟨o, there, outcome⟩ := (Option.any_eq_true _ _).mp skipped
  replace call := toOption_eq_some.mp call
  refine ⟨s, answer, db', o, call, (forbidden_overlaps run stored kept.1 call carried).2.mpr ?_, there,
    of_decide_eq_true outcome⟩
  intro r' claim stored' _ current _ d fires
  replace stored' : s.db.scheduling.schedules.get? 2 = some r' := stored'
  cases stored.symm.trans stored'
  have held := (currentClaim_eq_some.mp current).1
  replace fires : d ∈ firing s.db 2 r.toScheduleRow claim [120000000] := fires
  have none : firing s.db 2 r.toScheduleRow claim [120000000] = [] := by simpa [held] using kept.2
  simp [none] at fires

/-- An occurrence whose key a producer used before gets no job of its own, and is recorded as fired. -/
theorem forbidden_overlaps_taken : ∃ (s : System) (r : Schedule) (answer : ActionResult) (db' : Db) (o : Occurrence)
    (j : Uuid),
    System.Reachable .digits clockForward s ∧ s.db.scheduling.schedules.get? 2 = some r ∧ r.overlapPolicy = .forbid ∧
    fireSchedule (.alone .digits 60000000 9) firstFire s.db = .ok (answer, db') ∧ answer.replayed = false ∧
    answer.outcome ≠ .stale ∧ db'.scheduling.occurrences.get? (2, 60000000) = some o ∧ o.outcome = .fired ∧
    o.jobId = some j ∧ (s.db.jobs.get? j).isSome ∧ ¬Accounts (.alone .digits 60000000 9) firstFire s.db db' := by
  have played : System.plays .digits (firstMinute ++ [(60000000, .enqueue { EnqueueArgs.simple "q" with
      idempotencyKey := some (occurrenceKey 2 60000000) })]) (.installed .digits 0) (fun s =>
      (fireSchedule (.alone .digits 60000000 9) firstFire s.db).toOption.any (fun e =>
        e.1.replayed = false && e.1.outcome ≠ .stale &&
        (e.2.scheduling.occurrences.get? (2, 60000000)).any fun o => o.outcome = .fired &&
          o.jobId.any fun j => (s.db.jobs.get? j).isSome) &&
      (s.db.scheduling.schedules.get? 2).any fun r => r.overlapPolicy = .forbid) = true := by
    decide +kernel
  obtain ⟨s, run, there⟩ := System.plays_forward played (by decide)
  obtain ⟨fired, kept⟩ := Bool.and_eq_true _ _ |>.mp there
  obtain ⟨⟨answer, db'⟩, call, fired⟩ := (Option.any_eq_true _ _).mp fired
  obtain ⟨r, stored, forbids⟩ := (Option.any_eq_true _ _).mp kept
  simp only [Bool.and_eq_true, decide_eq_true_eq] at fired forbids
  obtain ⟨⟨fresh, carried⟩, row⟩ := fired
  obtain ⟨o, there, row⟩ := (Option.any_eq_true _ _).mp row
  obtain ⟨outcome, row⟩ := Bool.and_eq_true _ _ |>.mp row
  obtain ⟨j, named, old⟩ := (Option.any_eq_true _ _).mp row
  refine ⟨s, r, answer, db', o, j, ⟨0, run⟩, stored, forbids, toOption_eq_some.mp call, fresh, carried, there,
    of_decide_eq_true outcome, named, old, fun accounts => ?_⟩
  obtain ⟨_, _, _, _, o', -, there', explained⟩ := accounts 60000000 (by simp [firstFire])
  replace there' : db'.scheduling.occurrences.get? (2, 60000000) = some o' := there'
  cases there.symm.trans there'
  rw [Explained, of_decide_eq_true outcome] at explained
  obtain ⟨-, idle⟩ | ⟨j', named', new, -⟩ := explained
  · cases named.symm.trans idle
  · cases named.symm.trans named'
    rw [new] at old
    cases old

end Runs

end Taskq
