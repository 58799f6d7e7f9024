import Taskq.Invariants.Footprints

/-! Cancel requests and retry budgets, as laws of the life of one job. -/
namespace Taskq
open Relational

namespace Life

variable {max : ℤ} {k : Change} {l l' : Life}

/-- A cancel request is only ever pending on a running job, or on record on one that succeeded or
was cancelled. -/
def AskedOk (l : Life) : Prop :=
  l.cancelRequested = true → l.status = .running ∨ l.status = .succeeded ∨ l.status = .cancelled

/-- Failures stay within the budget, and below it while the job is live. -/
def BudgetOk (max : ℤ) (l : Life) : Prop :=
  0 ≤ l.failureCount ∧ l.failureCount ≤ max ∧ (l.status.terminal = false → l.failureCount < max)

theorem AskedOk.step (ok : l.AskedOk) (step : Step max k l l') : l'.AskedOk := by
  cases step with
  | promote _ blocked =>
    intro asked
    have := ok asked
    simp [blocked] at this
  | _ => simp_all [AskedOk, ended, failedOnce]

theorem BudgetOk.step (positive : 1 ≤ max) (ok : l.BudgetOk max) (step : Step max k l l') :
    l'.BudgetOk max := by
  obtain ⟨low, high, live⟩ := ok
  have room (alive : l.status.terminal = false) : l.failureCount < max := live alive
  cases step with
  | promote _ blocked => exact ⟨low, high, fun _ => room (by simp [blocked, JobStatus.terminal])⟩
  | withdraw => exact ⟨low, high, fun alive => by simp [JobStatus.terminal] at alive⟩
  | adjust => exact ⟨low, high, live⟩
  | bury _ _ running | expireBury _ running =>
    have below := room (by simp [running, JobStatus.terminal])
    refine ⟨?_, ?_, fun alive => by simp [failedOnce, ended, JobStatus.terminal] at alive⟩ <;>
      simp only [failedOnce, ended] <;> omega
  | expireRetry _ running _ kept =>
    have below := room (by simp [running, JobStatus.terminal])
    simp only [quarantined, not_or, not_le] at kept
    refine ⟨?_, ?_, fun _ => ?_⟩ <;> simp only [failedOnce, ended] <;> omega
  | retry _ running _ below =>
    refine ⟨?_, ?_, fun _ => ?_⟩ <;> simp only [failedOnce, ended] <;> omega
  | redrive => exact ⟨le_rfl, by dsimp only; omega, fun _ => by dsimp only; omega⟩
  | _ => simp_all [BudgetOk, ended, JobStatus.terminal]

/-- After a cancel request the job keeps it, starts no attempt, and runs or is over. -/
def Bound (l l' : Life) : Prop :=
  l.AskedOk → l'.AskedOk ∧ (l.cancelRequested = true →
    l'.cancelRequested = true ∧ l'.attemptCount = l.attemptCount)

theorem Bound.refl (l : Life) : Bound l l := fun ok => ⟨ok, fun asked => ⟨asked, rfl⟩⟩

theorem Bound.trans {l l' l'' : Life} (first : Bound l l') (second : Bound l' l'') : Bound l l'' := by
  intro ok
  obtain ⟨mid, kept⟩ := first ok
  obtain ⟨last, kept'⟩ := second mid
  refine ⟨last, fun asked => ?_⟩
  obtain ⟨asked', count⟩ := kept asked
  exact ⟨(kept' asked').1, (kept' asked').2.trans count⟩

theorem Bound.step (step : Step max k l l') : Bound l l' := by
  refine fun ok => ⟨ok.step step, fun asked => ?_⟩
  have where' := ok asked
  cases step <;> simp_all [ended]

end Life

section Calls

namespace Life

/-- Steps that end no attempt: the counters stay, and the job neither runs nor fails anew. -/
def Quiet (l l' : Life) : Prop :=
  l'.failureCount = l.failureCount ∧ l'.attemptCount = l.attemptCount ∧
  l'.expiryStreak = l.expiryStreak ∧ (l'.status = .running → l.status = .running) ∧
  (l'.status = .failed → l.status = .failed) ∧
  (l.status = .running → l'.status = .running) ∧ (l.status.terminal = true → l'.status = l.status)

variable {max : ℤ} {k : Change} {l l' : Life}

theorem Quiet.refl (l : Life) : Quiet l l := ⟨rfl, rfl, rfl, id, id, id, fun _ => rfl⟩

theorem Quiet.trans {l l' l'' : Life} (first : Quiet l l') (second : Quiet l' l'') :
    Quiet l l'' := by
  obtain ⟨f, a, e, run, fail, go, ended⟩ := first
  obtain ⟨f', a', e', run', fail', go', ended'⟩ := second
  refine ⟨f'.trans f, a'.trans a, e'.trans e, run ∘ run', fail ∘ fail', go' ∘ go, fun done => ?_⟩
  exact (ended' (ended done ▸ done)).trans (ended done)

theorem Quiet.step (step : Step max k l l') (plain : k ≠ .start ∧ k ≠ .redrive)
    (open' : k.closes = none) : Quiet l l' := by
  cases step with
  | promote _ blocked =>
    refine ⟨rfl, rfl, rfl, ?_, ?_, ?_, ?_⟩ <;> simp [blocked, JobStatus.terminal] <;> split_ifs <;>
      simp
  | withdraw _ _ _ idle =>
    obtain idle | idle | ⟨idle, -⟩ := idle <;> simp [Quiet, idle, JobStatus.terminal]
  | _ => simp_all [Quiet, Change.closes]

/-- A step that closes the attempt of a running job, after which the job does not run. -/
theorem Step.closes_inv (step : Step max k l l') (closes : k.closes.isSome = true) :
    l.status = .running ∧ l'.status ≠ .running := by
  cases step <;> simp_all [Change.closes, ended, failedOnce]

/-- What a call without a start or a redrive does to a job: nothing that counts, or it ends the
running attempt once. -/
def Settled (S : Set Change) (max : ℤ) (l l' : Life) : Prop :=
  Quiet l l' ∨ ∃ k ∈ S, ∃ m m', Quiet l m ∧ k.closes.isSome = true ∧ Step max k m m' ∧ Quiet m' l'

theorem Settled.trans {S : Set Change} {l l' l'' : Life} (first : Settled S max l l')
    (second : Settled S max l' l'') : Settled S max l l'' := by
  obtain quiet | ⟨k, member, m, m', before, closes, step, after⟩ := first
  · obtain quiet' | ⟨k, member, m, m', before, rest⟩ := second
    · exact .inl (quiet.trans quiet')
    · exact .inr ⟨k, member, m, m', quiet.trans before, rest⟩
  · obtain quiet' | ⟨k', -, n, n', before', closes', step', -⟩ := second
    · exact .inr ⟨k, member, m, m', before, closes, step, after.trans quiet'⟩
    · have runs := (step'.closes_inv closes').1
      exact absurd (after.2.2.2.1 (before'.2.2.2.1 runs)) (step.closes_inv closes).2

theorem Settled.step {S : Set Change} (step : Step max k l l') (member : k ∈ S)
    (plain : k ≠ .start ∧ k ≠ .redrive) : Settled S max l l' := by
  cases closes : k.closes with
  | none => exact .inl (.step step plain closes)
  | some status => exact .inr ⟨k, member, l, l', .refl l, by simp [closes], step, .refl l'⟩

end Life

/-- What one call may do to the budget, the streak and the verdict of a job. -/
structure CallLaw (env : Env) (command : Command) (id : Uuid) (old job : JobRow) : Prop where
  failures : job.failureCount = old.failureCount ∨
    (old.status = .running ∧ job.failureCount = old.failureCount + 1 ∧
      ((command.reportsFailure id).isSome = true ∨ command.expires env id old)) ∨
    (command.mayRedrive id ∧ old.status = .failed ∧ job.failureCount = 0)
  streak : job.expiryStreak = old.expiryStreak ∨ job.expiryStreak = 0 ∨
    (old.status = .running ∧ job.expiryStreak = old.expiryStreak + 1 ∧ command.expires env id old)
  failed : job.status = .failed → old.status ≠ .failed → old.status = .running ∧
    ((∃ flag, command.reportsFailure id = some flag ∧
        (flag ≠ some true ∨ old.maxAttempts ≤ job.failureCount)) ∨
      (command.expires env id old ∧ (3 ≤ job.expiryStreak ∨ old.maxAttempts ≤ job.failureCount)))
  requeued : old.status = .running → job.status = .queued → job.failureCount ≠ old.failureCount →
    job.failureCount < old.maxAttempts
  redriven : old.status = .failed → job.status ≠ .failed →
    command.mayRedrive id ∧ job.failureCount = 0 ∧ job.expiryStreak = 0

namespace CallLaw

variable {env : Env} {db : Db} {command : Command} {id : Uuid} {old : Job} {job : JobRow}

theorem of_quiet {old : JobRow} (quiet : Life.Quiet old.life job.life) : CallLaw env command id old job := by
  obtain ⟨f, -, e, -, fails, -, ended⟩ := quiet
  refine ⟨.inl f, .inl e, fun failed before => absurd (fails failed) before,
    fun _ _ counted => absurd f counted, fun failed revived => ?_⟩
  have done' : old.life.status.terminal = true := by simp [JobRow.life, failed, JobStatus.terminal]
  exact absurd ((ended done').trans failed) revived

theorem of_settled (stored : db.jobs.get? id = some old)
    (settled : Life.Settled {k | command.allows env db id k} old.maxAttempts old.life job.life) :
    CallLaw env command id old.toJobRow job := by
  obtain quiet | ⟨k, allowed, m, m', before, closes, step, after⟩ := settled
  · exact of_quiet quiet
  obtain ⟨f, -, e, run, -⟩ := before
  obtain ⟨f', -, e', -, fail', -, ended'⟩ := after
  have runs : old.status = .running := run (step.closes_inv closes).1
  have live : old.status ≠ .failed := by simp [runs]
  have counts (one : m'.failureCount = m.failureCount + 1) : job.failureCount = old.failureCount + 1 :=
    f'.trans (one.trans (congrArg (· + 1) f))
  have lengthens (one : m'.expiryStreak = m.expiryStreak + 1) : job.expiryStreak = old.expiryStreak + 1 :=
    e'.trans (one.trans (congrArg (· + 1) e))
  have dead (last : m'.status = .failed) (queued : job.status = .queued) : False := by
    have done' : m'.status.terminal = true := by simp [last, JobStatus.terminal]
    cases queued.symm.trans ((ended' done').trans last)
  cases step with
  | succeed | snooze =>
    exact ⟨.inl (f'.trans f), .inr (.inl e'), fun fails => (by cases fail' fails),
      fun _ _ counted => absurd (f'.trans f) counted, fun failed => absurd failed live⟩
  | release | expireCancel =>
    exact ⟨.inl (f'.trans f), .inl (e'.trans e), fun fails => (by cases fail' fails),
      fun _ _ counted => absurd (f'.trans f) counted, fun failed => absurd failed live⟩
  | cancelRunning _ _ _ streaks =>
    refine ⟨.inl (f'.trans f), ?_, fun fails => (by cases fail' fails),
      fun _ _ counted => absurd (f'.trans f) counted, fun failed => absurd failed live⟩
    obtain kept | reset := streaks
    · exact .inl (e'.trans (kept.trans e))
    · exact .inr (.inl (e'.trans reset))
  | retry _ running unasked room =>
    refine ⟨.inr (.inl ⟨runs, counts rfl, .inl allowed⟩), .inr (.inl e'), fun fails => (by cases fail' fails),
      fun _ _ _ => ?_, fun failed => absurd failed live⟩
    exact f'.trans_lt room
  | bury _ flag running unasked last =>
    have reported : command.reportsFailure id = some flag := allowed
    refine ⟨.inr (.inl ⟨runs, counts rfl, .inl (by simp [reported])⟩), .inr (.inl e'), fun _ _ => ⟨runs, ?_⟩,
      fun _ queued => (dead rfl queued).elim, fun failed => absurd failed live⟩
    refine .inl ⟨flag, reported, last.imp_right fun spent => ?_⟩
    exact spent.trans_eq f'.symm
  | expireRetry _ running unasked kept =>
    have expired := allowed old stored
    refine ⟨.inr (.inl ⟨runs, counts rfl, .inr expired⟩), .inr (.inr ⟨runs, lengthens rfl, expired⟩),
      fun fails => (by cases fail' fails), fun _ _ _ => ?_, fun failed => absurd failed live⟩
    exact f'.trans_lt (not_le.mp (not_or.mp kept).2)
  | expireBury _ running unasked last =>
    have expired := allowed old stored
    refine ⟨.inr (.inl ⟨runs, counts rfl, .inr expired⟩), .inr (.inr ⟨runs, lengthens rfl, expired⟩),
      fun _ _ => ⟨runs, .inr ⟨expired, ?_⟩⟩, fun _ queued => (dead rfl queued).elim,
      fun failed => absurd failed live⟩
    exact last.imp (fun third => third.trans_eq e'.symm) fun spent => spent.trans_eq f'.symm
  | _ => cases closes

end CallLaw

section Law

variable {env : Env} {db db' : Db} {command : Command} {id : Uuid}

theorem Life.Step.start_keeps {max : ℤ} {l l' : Life} (step : Life.Step max .start l l') :
    l'.failureCount = l.failureCount ∧ l'.expiryStreak = l.expiryStreak ∧ l.status = .queued ∧
      l'.status = .running := by
  cases step
  exact ⟨rfl, rfl, by assumption, rfl⟩

theorem Life.Step.redrive_inv {max : ℤ} {l l' : Life} (step : Life.Step max .redrive l l') :
    l.status = .failed ∧ l'.status = .queued ∧ l'.failureCount = 0 ∧ l'.expiryStreak = 0 := by
  cases step
  exact ⟨by assumption, rfl, rfl, rfl⟩

theorem Life.Step.adjust_inv {max : ℤ} {l l' : Life} (step : Life.Step max .adjust l l') : l' = l := by
  cases step
  rfl

/-- A job after a call was there before, as the same job, and its budget follows the law. -/
theorem Command.exec_law (run : command.exec env db = .ok db') (minted : id < db.nextUuid) {job : Job}
    (here : db'.jobs.get? id = some job) : ∃ was, db.jobs.get? id = some was ∧
      job.identity = was.identity ∧ CallLaw env command id was.toJobRow job.toJobRow := by
  obtain ⟨F, used, steps⟩ := Command.exec_steps run
  have old (p : Option Uuid) : Label.enter id p ∉ F := fun member =>
    absurd (Command.footprints_enter used member) (Nat.not_le.mpr minted)
  by_cases begins : F = starts
  · subst begins
    obtain ⟨was, before, kept, same, streak, fails⟩ := steps.job id
      (C := fun i j => j.identity = i.identity ∧ j.failureCount = i.failureCount ∧
        j.expiryStreak = i.expiryStreak ∧ (j.status = .failed ↔ i.status = .failed))
      (fun _ => ⟨rfl, rfl, rfl, Iff.rfl⟩)
      (fun first second => ⟨second.1.trans first.1, second.2.1.trans first.2.1,
        second.2.2.1.trans first.2.2.1, second.2.2.2.trans first.2.2.2⟩) old
      (fun {k i j} member kept step => by
        have only : k = .start := by simpa [starts] using member
        obtain ⟨count, streak, queued, runs⟩ := (only ▸ step).start_keeps
        have queued : i.status = .queued := queued
        have runs : j.status = .running := runs
        exact ⟨kept, count, streak, by simp [queued, runs]⟩) here
    exact ⟨was, before, kept, .inl same, .inl streak, fun failed live => absurd (fails.mp failed) live,
      fun _ _ counted => absurd same counted, fun failed revived => absurd (fails.mpr failed) revived⟩
  by_cases revives : .change id .redrive ∈ F
  · obtain plain | ⟨allowed, -, alone⟩ := Command.footprints_change used revives
    · cases plain
    obtain ⟨was, before, kept, law⟩ := steps.job id
      (C := fun i j => j.identity = i.identity ∧ (j.life = i.life ∨
        i.status = .failed ∧ j.status = .queued ∧ j.failureCount = 0 ∧ j.expiryStreak = 0))
      (fun _ => ⟨rfl, .inl rfl⟩)
      (fun {i j k} first second => by
        refine ⟨second.1.trans first.1, ?_⟩
        obtain same | ⟨failed, queued, zero⟩ := first.2
        · obtain same' | ⟨failed', rest⟩ := second.2
          · exact .inl (same'.trans same)
          · exact .inr ⟨(congrArg Life.status same).symm.trans failed', rest⟩
        · obtain same' | ⟨failed', -⟩ := second.2
          · exact .inr ⟨failed, (congrArg Life.status same').trans queued,
              (congrArg Life.failureCount same').trans zero.1, (congrArg Life.expiryStreak same').trans zero.2⟩
          · cases failed'.symm.trans queued) old
      (fun {k i j} member kept step => by
        obtain rfl | rfl := alone rfl k member
        · exact ⟨kept, .inr step.redrive_inv⟩
        · exact ⟨kept, .inl step.adjust_inv⟩) here
    refine ⟨was, before, kept, ?_⟩
    obtain same | ⟨failed, queued, zero, reset⟩ := law
    · exact .of_quiet (same ▸ .refl _)
    · exact ⟨.inr (.inr ⟨allowed, failed, zero⟩), .inr (.inl reset), fun _ live => absurd failed live,
        fun runs => absurd (failed.symm.trans runs) (by decide), fun _ _ => ⟨allowed, zero, reset⟩⟩
  · obtain ⟨was, before, kept, settled⟩ := steps.job id
      (C := fun i j => j.identity = i.identity ∧
        Life.Settled {k | command.allows env db id k} i.maxAttempts i.life j.life)
      (fun _ => ⟨rfl, .inl (.refl _)⟩)
      (fun {i j k} first second => by
        refine ⟨second.1.trans first.1, first.2.trans ?_⟩
        have same : j.maxAttempts = i.maxAttempts := congrArg Identity.maxAttempts first.1
        exact same ▸ second.2) old
      (fun {k i j} member kept step => by
        refine ⟨kept, .step step ?_ ⟨fun only => ?_, fun only => revives (only ▸ member)⟩⟩
        · obtain plain | ⟨allowed, -⟩ := Command.footprints_change used member
          · exact Command.allows_of_plain plain
          · exact allowed
        · obtain plain | ⟨-, all, -⟩ := Command.footprints_change used member
          · exact (Change.plain_ne plain).1 only
          · exact begins (all only)) here
    exact ⟨was, before, kept, .of_settled before settled⟩

/-- A law of single lives that every step obeys relates a job's row to its row after any run. -/
theorem System.Run.job {site : Site} {allowed : System → Env → Command → Prop} {s t : System}
    {C : Life → Life → Prop} (run : System.Run site allowed s t) (minted : id < s.db.nextUuid)
    (refl : ∀ l, C l l) (trans : ∀ {l l' l''}, C l l' → C l' l'' → C l l'')
    (step : ∀ {max k l l'}, Life.Step max k l l' → C l l') {job : Job}
    (here : t.db.jobs.get? id = some job) :
    ∃ was, s.db.jobs.get? id = some was ∧ C was.life job.life := by
  refine (run.induction (I := fun t => s.db.nextUuid ≤ t.db.nextUuid ∧
    ∀ job, t.db.jobs.get? id = some job → ∃ was, s.db.jobs.get? id = some was ∧ C was.life job.life)
    ⟨le_rfl, fun job here => ⟨job, here, refl _⟩⟩ fun {t u env command} ih _ next => ?_).2 job here
  obtain ⟨above, before⟩ := ih
  obtain ⟨F, used, steps⟩ := next.steps
  refine ⟨above.trans steps.nextUuid_le, fun job here => ?_⟩
  obtain ⟨mid, there, later⟩ := steps.job id (C := fun i j => C i.life j.life) (fun _ => refl _) trans
    (fun p member => absurd (Command.footprints_enter used member)
      (Nat.not_le.mpr (minted.trans_le above))) (fun _ _ next => step next) here
  obtain ⟨was, start, earlier⟩ := before mid there
  exact ⟨was, start, trans earlier later⟩

end Law

end Calls

end Taskq
