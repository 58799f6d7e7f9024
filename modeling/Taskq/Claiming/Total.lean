import Taskq.Claiming.Gates
import Taskq.Invariants.Sound

/-! When a claim raises nothing: the jobs that it starts have an attempt number left, and no candidate
has waited for more aging periods than an integer holds. -/
namespace Taskq
open Relational

section Start

variable {env : Env} {args : ClaimArgs} {id : Uuid} {job : Job} {db : Db}

/-- A queued job starts exactly when its attempts can still be counted. -/
theorem startAttempt_total (env : Env) (args : ClaimArgs) (ok : Sound db.toCore) (stored : db.jobs.get? id = some job)
    (queued : job.status = .queued) :
    (∃ r, startAttempt env args id job db = .ok r) ↔ job.attemptCount < 32767 := by
  constructor
  · rintro ⟨⟨claimed, db'⟩, run⟩
    simp only [startAttempt, newUuid, seq_eq_ok] at run
    obtain ⟨written, write, -⟩ := run
    obtain ⟨_, _, _, _, _, -, range, -⟩ := writeJob_frame write
    have := range.attemptCount.2
    dsimp only at this
    omega
  · intro short
    obtain ⟨columns, member, running, terminal⟩ := job.checks_parts
    have range := ok.range id job stored
    have live : job.status.terminal = false := by simp [queued, JobStatus.terminal]
    set new : JobRow := { job.toJobRow with
        status := .running, workerId := args.workerId, currentAttemptId := some db.nextUuid
        attemptCount := job.attemptCount + 1
        leaseExpiresAt := some (env.now + seconds (args.leaseSeconds.getD job.leaseSeconds))
        startedAt := job.startedAt <|> some env.now, updatedAt := env.now } with newDef
    have fits : new.InRange := by
      have low := range.attemptCount.1
      have next : -32768 ≤ job.attemptCount + 1 ∧ job.attemptCount + 1 ≤ 32767 := by omega
      exact ⟨range.priority, range.pendingDeps, next, range.failureCount, range.releaseCount,
        range.expiryStreak, range.maxAttempts⟩
    have checks : new.checksOk = true := by
      have open' : new.terminalShape = true := by
        have unfinished : job.finishedAt.isSome = false := by
          rw [← Bool.not_eq_true, ← job.terminal_iff, live]
          simp
        simp [JobRow.terminalShape, newDef, JobStatus.terminal, unfinished]
      have started : new.runningShape = true := by simp [JobRow.runningShape, newDef]
      have columns' : new.columnsOk = true := columns
      have member' : new.memberShape = true := member
      simp [JobRow.checksOk, columns', member', started, open']
    have ok' : Sound { db with nextUuid := db.nextUuid + 1 }.toCore := ok.step (.mint _)
    obtain ⟨written, write⟩ := ok'.writes env stored live fits checks
      fun _ _ settled => by simp [newDef] at settled
    have attempts := writeJob_attempts write
    have fresh : (written.attempts.get? db.nextUuid).isNone = true := by
      rw [attempts]
      change (db.attempts.get? db.nextUuid).isNone = true
      cases here : db.attempts.get? db.nextUuid with
      | none => rfl
      | some a =>
        have entry : ledgerEntry db.attempts db.nextUuid = some (a.jobId, a.status) := by
          simp [ledgerEntry, here, Attempt.entry]
        exact absurd (ok.ledger.owned _ _ _ entry).1 (lt_irrefl _)
    have alone : written.attempts.count (fun _ b => b.jobId = id ∧ b.status = .running) = 0 := by
      rw [attempts, Table.count_eq_zero]
      intro a b here
      by_contra running
      simp only [Bool.not_eq_false, decide_eq_true_eq] at running
      have entry : ledgerEntry db.attempts a = some (id, .running) := by
        simp [ledgerEntry, here, Attempt.entry, running]
      have current := (ok.ledger.current id job stored a).mpr entry
      have shaped := (ok.ledger.shaped id job stored).1
      simp [JobRow.life, queued, current] at shaped
    obtain ⟨opened, insert⟩ : ∃ opened, insertAttempt db.nextUuid ⟨id, args.workerId.getD "", .running,
        none, env.now, args.leaseSeconds.getD job.leaseSeconds, none, none, none⟩ written = .ok opened := by
      simp only [insertAttempt, seq_eq_ok, ensure_eq_ok]
      exact ⟨_, (), fresh, (), fun both => both.2 alone, rfl⟩
    simp only [startAttempt, newUuid, seq_eq_ok]
    exact ⟨_, written, write, opened, insert, _, emitEvent_quiet (by decide) (by decide), rfl⟩

end Start

section Loop

variable {env : Env} {args : ClaimArgs} {prefers : Preference} {saturated : String → Bool}
  {pick : Scan → Core → Call (Option (Uuid × Job) × Scan)} {scan : Scan} {scans : ℕ} {wanted : ℤ}
  {core core' core'' : Core} {db db' : Db} {id : Uuid} {job : Job}

/-- A later state of a claim, in which no job can be claimed that could not be claimed before. -/
def Narrower (env : Env) (args : ClaimArgs) (core core' : Core) : Prop :=
  ∀ id job, core'.jobs.get? id = some job → claimable env core' args job.toJobRow = true →
    core.jobs.get? id = some job ∧ claimable env core args job.toJobRow = true

theorem Narrower.refl (core : Core) : Narrower env args core core := fun _ _ stored good => ⟨stored, good⟩

theorem Narrower.trans (first : Narrower env args core core') (second : Narrower env args core' core'') :
    Narrower env args core core'' := fun id job stored good =>
  (second id job stored good).elim (first id job)

/-- The start of a job leaves fewer. -/
theorem Narrower.start {row : Job} (jobs : core'.jobs = core.jobs.put id row) (running : row.status = .running)
    (workflows : core'.workflows = core.workflows) : Narrower env args core core' := by
  intro other job stored good
  rw [jobs, Table.get?_put] at stored
  split_ifs at stored with own
  · cases stored
    simp [claimable, running] at good
  · refine ⟨stored, ?_⟩
    unfold claimable workflowCancelled at good ⊢
    rw [← workflows]
    exact good

/-- The scans raise nothing, now and when jobs have been started. -/
def Calm (env : Env) (args : ClaimArgs) (pick : Scan → Core → Call (Option (Uuid × Job) × Scan))
    (core : Core) : Prop :=
  ∀ scan core', Narrower env args core core' → ∃ r, pick scan core' = .ok r

theorem Calm.narrower (calm : Calm env args pick core) (narrower : Narrower env args core core') :
    Calm env args pick core' := fun scan _ next => calm scan _ (narrower.trans next)

/-- A candidate that starts leaves a state in which the loop can go on. -/
theorem startAttempt_next {claimed : ClaimedJob} (ok : Sound db.toCore) (rated : db.Rated)
    (stored : db.jobs.get? id = some job) (good : claimable env db.toCore args job.toJobRow = true)
    (run : startAttempt env args id job (admitCandidate env job.toJobRow db).2 = .ok (claimed, db')) :
    Sound db'.toCore ∧ db'.Rated ∧ Narrower env args db.toCore db'.toCore ∧
      ∃ row : Job, row.status = .running ∧ db'.jobs = db.jobs.put id row ∧ db'.workflows = db.workflows := by
  obtain ⟨core, settings, -⟩ := admitCandidate_aside env job.toJobRow db
  have limits : (admitCandidate env job.toJobRow db).2.flowLimits = db.flowLimits :=
    congrArg (fun s => s.2.2.2.1) settings
  have path := startAttempt_path run (by rw [core]; exact stored) (by rw [core]; exact good)
  obtain ⟨own, row, attempts, counts, counters, events, running, -, frame⟩ := startAttempt_frame run
  have rows : db'.jobs = db.jobs.put id row := by rw [frame, ← core]
  have workflows : db'.workflows = db.workflows := by rw [frame, ← core]
  refine ⟨Sound.steps (core.symm ▸ ok) path.steps, rated.congr ?_, .start rows running workflows, row, running, rows, workflows⟩
  rw [frame]
  exact limits

/-- The loop raises nothing exactly when the attempts of the jobs that it serves can be counted. -/
theorem claimLoop_total (picks : Picks env args pick) (follows : Follows env args prefers saturated pick)
    (rated : db.Rated) (ok : Sound db.toCore) (calm : Calm env args pick db.toCore) :
    (∃ r, claimLoop env args pick scans wanted scan db = .ok r) ↔
      ∀ e ∈ served (db.room env) scans wanted (lineup env args prefers saturated scan db.toCore),
        e.2.attemptCount < 32767 := by
  induction scans generalizing wanted scan db with
  | zero => simp [claimLoop, served]
  | succ scans ih =>
    by_cases enough : wanted ≤ 0
    · simp [claimLoop, served, enough, Int.toNat_of_nonpos enough]
    · obtain ⟨⟨candidate, scan'⟩, picked⟩ := calm scan _ (.refl _)
      obtain ⟨first, same⟩ := follows picked
      rw [← same] at first ⊢
      unfold claimLoop
      rw [if_neg enough, picked]
      generalize lines : lineup env args prefers saturated scan' db.toCore = line at first ⊢
      cases line with
      | nil =>
        subst first
        simp [served, bind, Except.bind]
      | cons head rest =>
        obtain ⟨id, job⟩ := head
        rw [List.head?_cons] at first
        subst first
        obtain ⟨stored, good⟩ := picks picked
        obtain ⟨queued, -, -⟩ := claimable_iff good
        obtain ⟨core, settings, -⟩ := admitCandidate_aside env job.toJobRow db
        have limits : (admitCandidate env job.toJobRow db).2.flowLimits = db.flowLimits :=
          congrArg (fun s => s.2.2.2.1) settings
        obtain ⟨serves, -, -⟩ := admitCandidate_serves env rated id job
        rw [served_cons _ _ _ (not_le.mp enough), ← serves]
        have sound : Sound (admitCandidate env job.toJobRow db).2.toCore := core.symm ▸ ok
        have start := startAttempt_total env args sound (by rw [core]; exact stored) queued
        dsimp only [bind, Except.bind]
        split_ifs with admitted
        · rw [List.forall_mem_cons, ← start]
          constructor
          · rintro ⟨r, run⟩
            obtain ⟨⟨claimed, started⟩, begun, run⟩ := seq_eq_ok.mp run
            obtain ⟨⟨others, last⟩, loop, -⟩ := seq_eq_ok.mp run
            obtain ⟨ok', rated', narrower, row, running, rows, workflows⟩ :=
              startAttempt_next ok rated stored good begun
            have taken := startAttempt_takes rated admitted stored (by simp [queued]) begun
            refine ⟨⟨_, begun⟩, ?_⟩
            have rest' := (ih rated' ok' (calm.narrower narrower)).mp ⟨_, loop⟩
            rwa [taken, lineup_start lines rows running workflows] at rest'
          · rintro ⟨⟨⟨claimed, started⟩, begun⟩, short⟩
            obtain ⟨ok', rated', narrower, row, running, rows, workflows⟩ :=
              startAttempt_next ok rated stored good begun
            have taken := startAttempt_takes rated admitted stored (by simp [queued]) begun
            have rest' := @ih scan' (wanted - 1) _ rated' ok' (calm.narrower narrower)
            rw [taken, lineup_start lines rows running workflows] at rest'
            obtain ⟨⟨others, last⟩, loop⟩ := rest'.mpr short
            rw [begun]
            exact ⟨(claimed :: others, last), seq_eq_ok.mpr ⟨_, loop, rfl⟩⟩
        · have idle := eq_false_of_ne_true admitted
          have rest' := @ih { scan' with skip := scan'.skip ++ [id] } wanted _
            (rated.congr limits) sound (core.symm ▸ calm)
          rwa [admitCandidate_refuses rated idle, core, lineup_skip lines] at rest'

end Loop

section Scans

variable {env : Env} {args : ClaimArgs} {hashes : List String} {batch : ℤ} {aging : Option ℤ}
  {saturated : String → Bool} {scan : Scan} {scans : ℕ} {core : Core} {db : Db} {id : Uuid}

/-- No job that can be claimed has waited for more aging periods than an integer holds. -/
def Aged (env : Env) (args : ClaimArgs) (aging : Option ℤ) (core : Core) : Prop :=
  ∀ id job, core.jobs.get? id = some job → claimable env core args job.toJobRow = true →
    aging.all (fun a => agedPeriods env a job.toJobRow ≤ 2147483647) = true

theorem firstCandidate_total (aged : Aged env args aging core) {p : Uuid → JobRow → Bool}
    (picks : ∀ id job, p id job = true → claimable env core args job = true) :
    ∃ r, firstCandidate env aging p core = .ok r := by
  have fits : aging.all fun a => (core.jobs.select fun id j => p id j.toJobRow).all
      fun r => agedPeriods env a r.2.toJobRow ≤ 2147483647 := by
    cases aging with
    | none => rfl
    | some a =>
      simp only [Option.all_some, List.all_eq_true]
      rintro ⟨id, job⟩ member
      obtain ⟨stored, chosen⟩ := Table.mem_select.mp member
      simpa using aged id job stored (picks id job.toJobRow chosen)
  simp only [firstCandidate, seq_eq_ok, ensure_eq_ok]
  exact ⟨_, (), fits, rfl⟩

theorem pickOrdinary_calm (aged : Aged env args aging core) :
    Calm env args (pickOrdinary env args aging saturated) core := by
  intro scan core' narrower
  have aged' : Aged env args aging core' := fun id job stored good =>
    (narrower id job stored good).elim (aged id job)
  have base {p : Uuid → JobRow → Bool} (id : Uuid) (job : JobRow)
      (chosen : (claimable env core' args job && job.continuationPolicyHash.isNone &&
        scan.admits saturated id job && p id job) = true) : claimable env core' args job = true := by
    simp only [Bool.and_eq_true] at chosen
    exact chosen.1.1.1
  obtain ⟨all, general⟩ := firstCandidate_total aged' (p := fun id j => claimable env core' args j &&
    j.continuationPolicyHash.isNone && scan.admits saturated id j && args.jobId.all (· = id)) base
  obtain ⟨own, affine⟩ := firstCandidate_total aged' (p := fun id j => claimable env core' args j &&
    j.continuationPolicyHash.isNone && scan.admits saturated id j && j.affinityKey = scan.affinity) base
  unfold pickOrdinary
  dsimp only
  rw [general, affine]
  split_ifs <;> cases own <;> exact ⟨_, rfl⟩

theorem pickWithPolicies_calm : Calm env args (fun scan core =>
    .ok (pickWithPolicies env args hashes batch saturated scan core)) core :=
  fun _ _ _ => ⟨_, rfl⟩

/-- The overload with policies starts a named job, or tries it to the end. -/
theorem claimLoop_target_total (named : args.jobId = some id) (rated : db.Rated) (ok : Sound db.toCore) :
    (∃ r, claimLoop env args (fun scan core =>
      .ok (pickWithPolicies env args hashes batch saturated scan core)) scans 1 scan db = .ok r) ↔
    (0 < scans → ∀ job, target env args hashes db.toCore id = some job →
      (db.room env).serves (id, job) = true → job.attemptCount < 32767) := by
  induction scans generalizing scan db with
  | zero => simp [claimLoop]
  | succ scans ih =>
    unfold claimLoop
    rw [if_neg (by decide), pickWithPolicies_target named]
    cases found : target env args hashes db.toCore id with
    | none => simp [bind, Except.bind]
    | some job =>
      obtain ⟨stored, good⟩ := Option.filter_eq_some_iff.mp found
      have queued : job.status = .queued := by
        simp only [Bool.and_eq_true] at good
        exact (claimable_iff good.1.1).1
      obtain ⟨core, settings, -⟩ := admitCandidate_aside env job.toJobRow db
      have limits : (admitCandidate env job.toJobRow db).2.flowLimits = db.flowLimits :=
        congrArg (fun s => s.2.2.2.1) settings
      obtain ⟨serves, -, -⟩ := admitCandidate_serves env rated id job
      have sound : Sound (admitCandidate env job.toJobRow db).2.toCore := core.symm ▸ ok
      have start := startAttempt_total env args sound (by rw [core]; exact stored) queued
      simp only [Nat.succ_pos, forall_const, Option.some.injEq, forall_eq', ← serves]
      dsimp only [Option.map_some, bind, Except.bind]
      split_ifs with admitted
      · rw [← start]
        simp only [admitted, forall_const]
        constructor
        · rintro ⟨r, run⟩
          obtain ⟨begun, first, -⟩ := seq_eq_ok.mp run
          exact ⟨begun, first⟩
        · rintro ⟨⟨claimed, started⟩, begun⟩
          rw [begun]
          refine ⟨([claimed], started), seq_eq_ok.mpr ⟨([], started), ?_, rfl⟩⟩
          cases scans <;> simp [claimLoop]
      · have idle := eq_false_of_ne_true admitted
        have rest := @ih { scan with skip := scan.skip ++ [id] } _ (rated.congr limits) sound
        rw [core, found, admitCandidate_refuses rated idle] at rest
        rw [rest]
        simp [← serves, idle]

end Scans

section Call

variable {env : Env} {c : ClaimCall} {q : Queue} {db gated entered : Db} {n : ℤ}

namespace ClaimCall

/-- The aging that orders the candidates of the call. -/
def aging (c : ClaimCall) (db : Db) : Option ℤ :=
  match c.hashes with
  | none => (db.queueFlow.get? c.args.queue).bind (·.priorityAgingSeconds)
  | some _ => none

/-- The loop of the call raises nothing exactly when the attempts of the jobs that it serves can be
counted. -/
theorem loop_total (unseen : Unseen c.args.queue db entered) (ok : Sound db.toCore) (rated : db.Rated)
    (aged : Aged env c.args (c.aging db) db.toCore) (low : 1 ≤ n) (high : n ≤ c.batch) :
    (∃ r, claimLoop env c.args (c.pick env n entered) (n + 20).toNat n ⟨[], c.args.affinityKey⟩ entered =
      .ok r) ↔ ∀ e ∈ c.serves env db n, e.2.attemptCount < 32767 := by
  have rated := unseen.rated rated
  have ok : Sound entered.toCore := unseen.core.symm ▸ ok
  rw [← unseen.serves env n]
  obtain ⟨args, hashes⟩ := c
  cases hashes with
  | none =>
    have aged' : Aged env args ((entered.queueFlow.get? args.queue).bind (·.priorityAgingSeconds))
        entered.toCore := by
      rw [unseen.aging, unseen.core]
      exact aged
    exact claimLoop_total pickOrdinary_picks (pickOrdinary_follows env args _ _) rated ok
      (pickOrdinary_calm aged')
  | some hashes =>
    cases named : args.jobId with
    | none =>
      exact claimLoop_total pickWithPolicies_picks (pickWithPolicies_follows low named) rated ok
        pickWithPolicies_calm
    | some id =>
      have one' : n = 1 := by
        simp only [ClaimCall.batch, named, Option.isSome_some, if_true] at high
        omega
      subst one'
      refine (claimLoop_target_total named rated ok).trans ?_
      simp only [ClaimCall.serves, ClaimCall.lineup, prefers, lineup_target named]
      cases target env args hashes entered.toCore id with
      | none => simp [served]
      | some job =>
        have fresh : (entered.room env).serves (id, job) = true →
            job.concurrencyKey.any (saturatedKey entered) = false := fun serves =>
          eq_false_of_ne_true fun full => by simp [Room.full env entered full] at serves
        rw [Option.filter_some]
        split_ifs with free
        · by_cases serves : (entered.room env).serves (id, job) = true <;>
            simp [served, serve, serves]
        · have none' : ¬(entered.room env).serves (id, job) = true := fun serves => by
            simp [fresh serves] at free
          simp [served, none']

end ClaimCall

/-- The tokens of the queue's bucket fit an integer. -/
def TokensFit (env : Env) (queue : String) (q : Queue) (db : Db) : Prop :=
  ∀ rate, q.claimRatePerMinute = some rate →
    -2147483648 ≤ tokensLeft env (bucketLimit env queue q rate db) (db.tat queue) ∧
      tokensLeft env (bucketLimit env queue q rate db) (db.tat queue) ≤ 2147483647

/-- Gates that grant something let the claim through. -/
theorem queueGate_total {args : ClaimArgs} {batch : ℤ} (fits : TokensFit env args.queue q db)
    (positive : 0 < granted env args.queue q batch db) :
    ∃ d, queueGate env args q batch db = .ok (.ok (granted env args.queue q batch db), d) := by
  suffices ∃ gate d, queueGate env args q batch db = .ok (gate, d) by
    obtain ⟨gate, d, run⟩ := this
    obtain ⟨grants, throttles⟩ := queueGate_granted run
    cases gate with
    | error throttled => exact absurd (throttles throttled rfl).1 positive.ne'
    | ok n => exact ⟨d, (grants n rfl).1 ▸ run⟩
  simp only [queueGate]
  split_ifs with full
  · exact ⟨_, _, rfl⟩
  · cases rates : q.claimRatePerMinute with
    | none => exact ⟨_, _, rfl⟩
    | some rate =>
      have free := eq_false_of_ne_true full
      simp only [granted, rates, leeway, free, Bool.false_eq_true, if_false] at positive
      have limit : bucketLimit env args.queue q rate db = _ := rfl
      obtain ⟨grant, d, consume⟩ := flowConsumeQueue_total limit (fits rate rates).1 (fits rate rates).2 positive
      dsimp only
      rw [consume]
      cases grant <;> exact ⟨_, _, rfl⟩

end Call

end Taskq
