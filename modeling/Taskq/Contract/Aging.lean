import Taskq.Invariants.Aging
import Taskq.Invariants.History

/-! Priority aging: a job that has waited more than its priority in aging periods is overtaken by nothing that became
ready that much later, until its boost reaches the cap and a younger job's goes on growing. -/
namespace Taskq
open Relational

section Order

/-- The time after which a job of priority `p` has aged past every fresh job, and one period more. -/
def agingSpan (aging p : ℤ) : Time := seconds ((p + 1) * aging)

variable {env : Env} {aging : ℤ} {old young : JobRow}

/-- A job became ready more than another one's span later. -/
def Younger (aging : ℤ) (old young : JobRow) : Prop := old.scheduledAt + agingSpan aging old.priority < young.scheduledAt

/-- The younger job itself has waited for more periods than the cap leaves between the two priorities. -/
def OutrunsCap (env : Env) (aging : ℤ) (old young : JobRow) : Prop :=
  1000 + young.priority < old.priority + min 1000 (agedPeriods env aging young)

/-- A job that became ready a span later has aged by that much less. -/
theorem agedPeriods_younger (positive : 0 < aging) (younger : Younger aging old young) :
    agedPeriods env aging young + (old.priority + 1) ≤ agedPeriods env aging old := by
  have step : (0 : ℤ) < seconds aging := by
    unfold seconds
    omega
  have later : young.scheduledAt - old.scheduledAt > (old.priority + 1) * seconds aging := by
    unfold Younger agingSpan seconds at younger
    unfold seconds
    linarith
  have own : agedPeriods env aging young * seconds aging ≤ env.now - young.scheduledAt := Int.ediv_mul_le _ step.ne'
  unfold agedPeriods at own ⊢
  rw [Int.le_ediv_iff_mul_le step, add_mul]
  linarith

/-- A job that became ready a span later goes ahead of the older one exactly when it outruns the cap. -/
theorem effectivePriority_lt_iff (positive : 0 < aging) (younger : Younger aging old young) (floor : 0 ≤ young.priority) :
    effectivePriority env (some aging) young < effectivePriority env (some aging) old ↔ OutrunsCap env aging old young := by
  have behind : agedPeriods env aging young + (old.priority + 1) ≤ agedPeriods env aging old :=
    agedPeriods_younger positive younger
  unfold OutrunsCap
  simp only [effectivePriority]
  omega

/-- Otherwise the older job goes first. -/
theorem claimLe_older {a b : Uuid × Job} (positive : 0 < aging) (younger : Younger aging a.2.toJobRow b.2.toJobRow)
    (calm : ¬OutrunsCap env aging a.2.toJobRow b.2.toJobRow) (priorities : 0 ≤ a.2.priority ∧ 0 ≤ b.2.priority) :
    claimLe (effectivePriority env (some aging)) a b = true ∧ ¬claimLe (effectivePriority env (some aging)) b a = true := by
  have ranks := (effectivePriority_lt_iff positive younger priorities.2).not.mpr calm
  have span : 0 < (a.2.priority + 1) * aging * 1000000 := by
    have base : (0 : ℤ) < a.2.priority + 1 := by linarith [priorities.1]
    positivity
  have before : a.2.scheduledAt < b.2.scheduledAt := by
    unfold Younger agingSpan seconds at younger
    linarith
  simp only [claimLe, Bool.or_eq_true, Bool.and_eq_true, decide_eq_true_eq]
  grind

end Order

section Turns

variable {env : Env} {c : ClaimCall} {db : Db} {aging : ℤ} {id : Uuid} {job : Job}

/-- For an ordinary claim without an affinity preference, a ready job without concurrency and flow keys that has waited
for more than its span. -/
structure Overdue (env : Env) (c : ClaimCall) (db : Db) (aging : ℤ) (id : Uuid) (job : Job) : Prop where
  plain : c.hashes = none ∧ c.args.jobId = none ∧ c.args.affinityKey = none
  ages : (db.queueFlow.get? c.args.queue).bind (·.priorityAgingSeconds) = some aging
  ready : (id, job) ∈ c.lineup env db
  keyless : job.concurrencyKey = none ∧ job.flowKey = none
  waited : job.scheduledAt + agingSpan aging job.priority < env.now

/-- No job that became ready more than the span later is taken before the job. -/
def KeepsTurn (db : Db) (jobs : List ClaimedJob) (aging : ℤ) (id : Uuid) (job : Job) : Prop :=
  ∀ earlier claimed later, jobs = earlier ++ claimed :: later → ∀ other, db.jobs.get? claimed.jobId = some other →
    Younger aging job.toJobRow other.toJobRow → ∃ own ∈ earlier, own.jobId = id

/-- No ready job that became ready a span later than an overdue one outruns the cap. -/
def WithinCap (env : Env) (c : ClaimCall) (db : Db) : Prop :=
  ∀ aging id job, Overdue env c db aging id job → ∀ other young, (other, young) ∈ c.lineup env db →
    Younger aging job.toJobRow young.toJobRow → ¬OutrunsCap env aging job.toJobRow young.toJobRow

theorem Overdue.serves (overdue : Overdue env c db aging id job) (room : Room) : room.serves (id, job) = true := by
  simp [Room.serves, overdue.keyless]

/-- The lineup of such a claim, which is in order, around the job. -/
theorem Overdue.split (overdue : Overdue env c db aging id job) : ∃ before after,
    c.lineup env db = before ++ (id, job) :: after ∧
      ∀ e ∈ before, claimLe (effectivePriority env (some aging)) e (id, job) = true := by
  obtain ⟨before, after, shape⟩ := List.append_of_mem overdue.ready
  refine ⟨before, after, shape, fun e member => ?_⟩
  have order : (c.lineup env db).Pairwise fun a b => claimLe (effectivePriority env (some aging)) a b = true := by
    obtain ⟨args, hashes⟩ := c
    obtain ⟨rfl, targeted, affinity⟩ := overdue.plain
    have ages := overdue.ages
    dsimp only at targeted affinity ages
    simp only [ClaimCall.lineup, ClaimCall.prefers, lineup, affinity, ages]
    exact Table.selectBy_pairwise (claimLe_order _) _ _
  rw [shape, List.pairwise_append] at order
  exact order.2.2 e member _ List.mem_cons_self

/-- Whoever is served before the job stands before it. -/
theorem Overdue.served (overdue : Overdue env c db aging id job) {n : ℤ} {earlier later : List Uuid} {other : Uuid}
    (ids : (c.serves env db n).map Prod.fst = earlier ++ other :: later) : other = id ∨ id ∈ earlier ∨
      ∃ young, (other, young) ∈ c.lineup env db ∧
        claimLe (effectivePriority env (some aging)) (other, young) (id, job) = true := by
  obtain ⟨before, after, shape, ahead⟩ := overdue.split
  obtain ⟨first, part, served⟩ : ∃ first, List.Sublist first before ∧ (c.serves env db n = first ∨
      ∃ rest, c.serves env db n = first ++ (id, job) :: rest) := by
    unfold ClaimCall.serves Taskq.served
    rw [shape]
    exact serve_before overdue.serves
  have stands (member : other ∈ first.map Prod.fst) : ∃ young, (other, young) ∈ c.lineup env db ∧
      claimLe (effectivePriority env (some aging)) (other, young) (id, job) = true := by
    obtain ⟨⟨_, young⟩, here, rfl⟩ := List.mem_map.mp member
    have there := part.subset here
    exact ⟨young, shape ▸ List.mem_append_left _ there, ahead _ there⟩
  obtain same | ⟨rest, same⟩ := served
  · rw [same] at ids
    exact .inr (.inr (stands (ids ▸ List.mem_append_right _ List.mem_cons_self)))
  · rw [same, List.map_append, List.map_cons] at ids
    obtain ⟨middle, rfl, tail⟩ | ⟨middle, front, tail⟩ := List.append_eq_append_iff.mp ids
    · cases middle with
      | nil => exact .inl (List.cons.inj tail).1.symm
      | cons x middle =>
        cases (List.cons.inj tail).1
        exact .inr (.inl (List.mem_append_right _ List.mem_cons_self))
    · cases middle with
      | nil => exact .inl (List.cons.inj tail).1
      | cons x middle =>
        cases (List.cons.inj tail).1
        exact .inr (.inr (stands (front ▸ List.mem_append_right _ List.mem_cons_self)))

/-- A claim under which no younger job outruns the cap keeps the turn of every overdue job. -/
theorem claim_keepsTurn {answer : ClaimBatch} {db' : Db} (rated : db.Rated) (ages : db.AgesForward)
    (run : c.run env db = .ok (answer, db')) (within : WithinCap env c db) (overdue : Overdue env c db aging id job) :
    KeepsTurn db answer.jobs aging id job := by
  intro earlier claimed later shape other stored younger
  have ids := (ClaimCall.outcome run rated).serves
  rw [shape, List.map_append, List.map_cons] at ids
  have positive : 0 < aging := by
    obtain ⟨flow, found, set'⟩ := Option.bind_eq_some_iff.mp overdue.ages
    have own := ages _ flow found
    rw [set'] at own
    exact of_decide_eq_true own
  have floor (j : Job) : 0 ≤ j.priority := by
    have columns := j.checks_parts.1
    simp only [JobRow.columnsOk, Bool.and_eq_true, decide_eq_true_eq] at columns
    tauto
  obtain same | member | ⟨young, lined, ahead⟩ := overdue.served ids.symm
  · have own := (mem_lineup.mp overdue.ready).1
    rw [← same] at own
    cases own.symm.trans stored
    unfold Younger agingSpan seconds at younger
    have base : (0 : ℤ) < (job.priority + 1) * aging * 1000000 := by
      have step : (0 : ℤ) < job.priority + 1 := by linarith [floor job]
      positivity
    linarith
  · obtain ⟨own, there, same⟩ := List.mem_map.mp member
    exact ⟨own, there, same⟩
  · cases (mem_lineup.mp lined).1.symm.trans stored
    have calm := within aging id job overdue _ _ lined younger
    exact absurd ahead (claimLe_older positive younger calm ⟨floor job, floor other⟩).2

end Turns

section Runs

variable {site : Site} {s : System} {moments : List Moment}

/-- Every claim of a run is made where no younger job outruns the cap. -/
def agingCalm (s : System) (env : Env) (command : Command) : Prop :=
  ∀ c, command.claim = some c → WithinCap env c s.db

/-- In every run whose claims are made where no younger job outruns the cap, no job is taken before an overdue one that
became ready a span earlier. -/
theorem aging_bounds_overtaking {now : Time} (trace : System.Trace site agingCalm (.installed site now) moments s) :
    ∀ m ∈ moments, ∀ c answer db', m.command.claim = some c → c.run m.env m.before = .ok (answer, db') →
      ∀ aging id job, Overdue m.env c m.before aging id job → KeepsTurn m.before answer.jobs aging id job := by
  induction trace with
  | start => exact fun _ member => nomatch member
  | @step moments t u env command before permitted step ih =>
    intro m member c answer db' claims run aging id job overdue
    obtain older | new := List.mem_append.mp member
    · exact ih m older c answer db' claims run aging id job overdue
    · cases List.mem_singleton.mp new
      have reachable : System.Reachable site agingCalm t := ⟨now, before.run⟩
      exact claim_keepsTurn reachable.rated reachable.agesForward run (permitted c claims) overdue

/-- A job of priority 1 is ready at once and one of priority 0 three seconds later, on a queue that ages by the second. -/
def twoReady : List (Time × Command) :=
  [(0, .ensureQueue (some "q") none), (0, .setPriorityAging "q" (some 1)),
    (0, .enqueue { EnqueueArgs.simple "q" with priority := some 1 }),
    (3000000, .enqueue { EnqueueArgs.simple "q" with priority := some 0 })]

/-- The surroundings of a claim at the given second. -/
def claimAt (second : ℤ) (s : System) : Env := .alone .plain (seconds second) (s.xid + 1)

/-- An overdue job and one that became ready a span later wait, as far as the claim sees them. -/
def overdueAt (env : Env) (c : ClaimCall) (db : Db) : Bool :=
  (db.queueFlow.get? "q").bind (·.priorityAgingSeconds) = some 1 && (c.lineup env db).any fun e =>
    e.1 = 2 && e.2.concurrencyKey = none && e.2.flowKey = none &&
      e.2.scheduledAt + agingSpan 1 e.2.priority < env.now &&
      (db.jobs.get? 3).any fun young => e.2.scheduledAt + agingSpan 1 e.2.priority < young.scheduledAt

theorem overdueAt_overdue {env : Env} {c : ClaimCall} {db : Db} (plain : c.hashes = none ∧ c.args.jobId = none ∧
    c.args.affinityKey = none) (queue : c.args.queue = "q") (waits : overdueAt env c db = true) :
    ∃ job, Overdue env c db 1 2 job ∧
      ∃ young, db.jobs.get? 3 = some young ∧ Younger 1 job.toJobRow young.toJobRow := by
  simp only [overdueAt, Bool.and_eq_true, decide_eq_true_eq, List.any_eq_true, Option.any_eq_true] at waits
  obtain ⟨ages, ⟨id, job⟩, ready, ⟨⟨⟨rfl, concurrency⟩, flow⟩, waited⟩, young, stored, younger⟩ := waits
  exact ⟨job, ⟨plain, queue ▸ ages, ready, ⟨concurrency, flow⟩, waited⟩, young, stored, younger⟩

/-- After ten seconds the older job is taken first. -/
theorem aging_bounds_overtaking_early : ∃ (s : System) (jobs : List ClaimedJob) (job young : Job),
    KeepsTurn s.db jobs 1 2 job ∧ jobs.map (·.jobId) = [2, 3] ∧ s.db.jobs.get? 3 = some young ∧
      Younger 1 job.toJobRow young.toJobRow := by
  let both : ClaimCall := ⟨.simple "q" 2, none⟩
  have played : System.plays .plain twoReady (.installed .plain 0) (fun s =>
      (both.run (claimAt 10 s) s.db).toOption.any fun claimed =>
        claimed.1.jobs.map (·.jobId) = [2, 3] && overdueAt (claimAt 10 s) both s.db &&
          (both.lineup (claimAt 10 s) s.db).all fun a => (both.lineup (claimAt 10 s) s.db).all fun b =>
            !(1000 + b.2.priority < a.2.priority + min 1000 (agedPeriods (claimAt 10 s) 1 b.2.toJobRow) : Bool)) = true := by
    decide +kernel
  obtain ⟨s, run, there⟩ := System.plays_run agingCalm played fun u call member c claims => by
    simp only [twoReady, List.mem_cons, List.not_mem_nil, or_false] at member
    obtain rfl | rfl | rfl | rfl := member <;> cases claims
  obtain ⟨⟨answer, db⟩, claimed, there⟩ := (Option.any_eq_true _ _).mp there
  have claimed := toOption_eq_some.mp claimed
  simp only [Bool.and_eq_true, decide_eq_true_eq, List.all_eq_true, Bool.not_eq_true', decide_eq_false_iff_not] at there
  obtain ⟨⟨ids, waits⟩, within⟩ := there
  obtain ⟨job, overdue, young, stored, younger⟩ := overdueAt_overdue ⟨rfl, rfl, rfl⟩ rfl waits
  obtain ⟨moments, trace⟩ := run.trace
  have step : System.Step .plain (claimAt 10 s) (.claimJobs both.args) s
      ⟨db, (claimAt 10 s).now, (claimAt 10 s).xid, s.admitted ++ newJobs s.db db⟩ :=
    .commit rfl (Nat.lt_succ_self _) (by rw [show Command.claimJobs both.args = both.command from rfl, ClaimCall.exec, claimed]; rfl)
  have permitted : agingCalm s (claimAt 10 s) (.claimJobs both.args) := by
    intro c claims aging id job late other young lined younger outruns
    cases claims
    cases Option.some.inj (overdue.ages.symm.trans late.ages)
    exact within _ late.ready _ lined outruns
  exact ⟨s, answer.jobs, job, young, aging_bounds_overtaking (trace.step permitted step) _
    (List.mem_append_right _ List.mem_cons_self) both answer db rfl claimed 1 2 job overdue, ids, stored, younger⟩

/-- After 1005 seconds the younger one is: the older one's boost has stopped at the cap. -/
theorem capped_job_overtaken : ¬∀ (s : System) (moments : List Moment),
    System.Trace .plain anyCall (.installed .plain 0) moments s →
    ∀ m ∈ moments, ∀ c answer db', m.command.claim = some c → c.run m.env m.before = .ok (answer, db') →
      ∀ aging id job, Overdue m.env c m.before aging id job → KeepsTurn m.before answer.jobs aging id job := by
  intro kept
  have played : System.plays .plain twoReady (.installed .plain 0) (fun s =>
      (oneJob.run (claimAt 1005 s) s.db).toOption.any fun claimed =>
        claimed.1.jobs.map (·.jobId) = [3] && overdueAt (claimAt 1005 s) oneJob s.db) = true := by decide +kernel
  obtain ⟨s, run, there⟩ := System.plays_run anyCall played fun _ _ _ => trivial
  obtain ⟨⟨answer, db⟩, claimed, there⟩ := (Option.any_eq_true _ _).mp there
  have claimed := toOption_eq_some.mp claimed
  simp only [Bool.and_eq_true, decide_eq_true_eq] at there
  obtain ⟨ids, waits⟩ := there
  obtain ⟨job, overdue, young, stored, younger⟩ := overdueAt_overdue ⟨rfl, rfl, rfl⟩ rfl waits
  obtain ⟨moments, trace⟩ := run.trace
  have step : System.Step .plain (claimAt 1005 s) (.claimJobs oneJob.args) s
      ⟨db, (claimAt 1005 s).now, (claimAt 1005 s).xid, s.admitted ++ newJobs s.db db⟩ :=
    .commit rfl (Nat.lt_succ_self _) (by rw [show Command.claimJobs oneJob.args = oneJob.command from rfl, ClaimCall.exec, claimed]; rfl)
  have turn := kept _ _ (trace.step trivial step) _ (List.mem_append_right _ List.mem_cons_self) oneJob answer db rfl
    claimed 1 2 job overdue
  obtain ⟨taken, rest, shape⟩ := List.exists_cons_of_ne_nil (show answer.jobs ≠ [] by rintro empty; simp [empty] at ids)
  have first : taken.jobId = 3 := by
    rw [shape] at ids
    exact (List.cons.inj ids).1
  obtain ⟨own, member, -⟩ := turn [] taken rest shape young (first ▸ stored) younger
  cases member

end Runs

end Taskq
