import Taskq.Contract.Fencing

/-! Settlements and their replay. A settlement that is repeated finds its attempt closed and answers
from the ledger; the answer is right when the ledger has the status that the verb asked for. -/
namespace Taskq
open Relational

/-- What a worker reports about its attempt. -/
inductive SettleVerb where
  | complete (result stats followups : Option Jsonb)
  | completeWithPolicy (result stats followups : Option Jsonb) (policyHash : Option String)
  | fail (error : Option String) (retryable : Option Bool) (retryAfter : Option ℤ)
      (progress stats : Option Jsonb)
  | snooze (delay : Option ℤ) (reason : Option String) (progress : Option Jsonb)
  | release (cause : Option String) (delay : Option ℤ) (progress : Option Jsonb)
  | cancelRunning (reason : Option String)

/-- The ledger status that the verb asks for. -/
def SettleVerb.own : SettleVerb → AttemptStatus
  | .complete .. | .completeWithPolicy .. => .succeeded
  | .fail .. => .failed
  | .snooze .. => .snoozed
  | .release .. => .released
  | .cancelRunning .. => .cancelled

/-- The verb gives way to a pending cancellation. -/
def SettleVerb.yields : SettleVerb → Bool
  | .fail .. | .snooze .. | .release .. => true
  | _ => false

/-- A settle call. -/
structure Settlement where
  jobId : Uuid
  attemptId : Uuid
  worker : Option String
  verb : SettleVerb

namespace Settlement

def run (env : Env) (c : Settlement) (db : Db) : Call (SettleResult × Db) :=
  match c.verb with
  | .complete result stats followups =>
    completeJob env c.jobId c.attemptId c.worker result stats followups db
  | .completeWithPolicy result stats followups policyHash =>
    completeJobWithPolicy env c.jobId c.attemptId c.worker result stats followups policyHash db
  | .fail error retryable retryAfter progress stats =>
    failJob env c.jobId c.attemptId c.worker error retryable retryAfter progress stats db
  | .snooze delay reason progress =>
    snoozeJob env c.jobId c.attemptId c.worker delay reason progress db
  | .release cause delay progress =>
    releaseJob env c.jobId c.attemptId c.worker cause delay progress db
  | .cancelRunning reason => cancelRunningJob env c.jobId c.attemptId c.worker reason db

def command (c : Settlement) : Command :=
  match c.verb with
  | .complete result stats followups =>
    .completeJob c.jobId c.attemptId c.worker result stats followups
  | .completeWithPolicy result stats followups policyHash =>
    .completeJobWithPolicy c.jobId c.attemptId c.worker result stats followups policyHash
  | .fail error retryable retryAfter progress stats =>
    .failJob c.jobId c.attemptId c.worker error retryable retryAfter progress stats
  | .snooze delay reason progress => .snoozeJob c.jobId c.attemptId c.worker delay reason progress
  | .release cause delay progress => .releaseJob c.jobId c.attemptId c.worker cause delay progress
  | .cancelRunning reason => .cancelRunningJob c.jobId c.attemptId c.worker reason

theorem exec (env : Env) (c : Settlement) (db : Db) :
    c.command.exec env db = (c.run env db).map (·.2) := by
  obtain ⟨_, _, _, _ | _ | _ | _ | _ | _⟩ := c <;> rfl

theorem presents (c : Settlement) : c.command.presents = some (c.jobId, c.attemptId) := by
  obtain ⟨_, _, _, _ | _ | _ | _ | _ | _⟩ := c <;> rfl

end Settlement

/-- The outcomes of a settlement that settled its attempt. -/
def SettleOutcome.success : SettleOutcome → Bool
  | .ok | .retryScheduled | .dead => true
  | _ => false

section Answer

/-- The answer to a settlement of an attempt that does not run the job. -/
def Settlement.replay (c : Settlement) (core : Core) : SettleResult :=
  let answer := replayAnswer core c.jobId c.attemptId c.verb.own
  match c.verb with
  | .complete .. | .completeWithPolicy .. =>
    if (core.jobs.get? c.jobId).isSome then answer else ⟨.lost, none, none⟩
  | .cancelRunning _ =>
    if answer.outcome = .alreadySettled then { answer with jobStatus := some .cancelled } else answer
  | _ => answer

variable {env env' : Env} {c : Settlement} {db db' : Db} {core : Core} {answer : SettleResult}
  {jobId attemptId : Uuid} {own : AttemptStatus}

theorem replayAnswer_settled :
    (replayAnswer core jobId attemptId own).outcome = .alreadySettled ↔
      ledgerEntry core.attempts attemptId = some (jobId, own) := by
  unfold replayAnswer ledgerEntry
  cases core.attempts.get? attemptId with
  | none => simp
  | some a =>
    by_cases owner : a.jobId = jobId
    · simp only [owner, decide_true, Option.filter_some, if_true, Option.map_some, Attempt.entry,
        Option.some.injEq, Prod.mk.injEq, true_and]
      split_ifs <;> simp_all
    · rw [Option.filter_some, if_neg (by simpa using owner)]
      simp [owner, Attempt.entry]

theorem replayAnswer_open (core : Core) (jobId attemptId : Uuid) (own : AttemptStatus) :
    (replayAnswer core jobId attemptId own).outcome.success = false := by
  unfold replayAnswer
  split
  · rfl
  · split_ifs <;> rfl

theorem Settlement.replay_open : (c.replay core).outcome.success = false := by
  have held := replayAnswer_open core c.jobId c.attemptId c.verb.own
  obtain ⟨_, _, _, _ | _ | _ | _ | _ | _⟩ := c <;> simp only [Settlement.replay] <;>
    (try split) <;> first | exact held | rfl

/-- A call that passed its checks passes them again, and answers from the ledger when its attempt no
longer runs the job. -/
theorem Settlement.replays (first : c.run env db = .ok (answer, db')) {db₂ : Db}
    (gone : runningJob db₂.toCore c.jobId c.attemptId = none) (env₂ : Env) :
    c.run env₂ db₂ = .ok (c.replay db₂.toCore, db₂) := by
  obtain ⟨jobId, attemptId, worker, verb⟩ := c
  have idle := runningJob_eq_none.mp gone
  cases verb with
  | complete result stats followups =>
    simp only [Settlement.run, completeJob, seq_eq_ok] at first
    obtain ⟨⟨⟩, checked, -⟩ := first
    simp only [Settlement.run, Settlement.replay, completeJob, seq_eq_ok]
    refine ⟨(), checked, ?_⟩
    split
    · rename_i missing
      simp [missing]
    · rename_i job stored
      rw [if_pos (idle job stored)]
      simp [stored, SettleVerb.own]
  | completeWithPolicy result stats followups policyHash =>
    simp only [Settlement.run, completeJobWithPolicy, seq_eq_ok] at first
    obtain ⟨⟨⟩, checked, -⟩ := first
    simp only [Settlement.run, Settlement.replay, completeJobWithPolicy, seq_eq_ok]
    refine ⟨(), checked, ?_⟩
    split
    · rename_i missing
      simp [missing]
    · rename_i job stored
      rw [if_pos (idle job stored)]
      simp [stored, SettleVerb.own]
  | fail error retryable retryAfter progress stats =>
    simp only [Settlement.run, failJob, seq_eq_ok] at first
    obtain ⟨⟨⟩, worker, ⟨⟩, progress, -⟩ := first
    simp only [Settlement.run, failJob, seq_eq_ok]
    exact ⟨(), worker, (), progress, by rw [gone]; rfl⟩
  | snooze delay reason progress =>
    simp only [Settlement.run, snoozeJob, seq_eq_ok] at first
    obtain ⟨⟨⟩, worker, ⟨⟩, delay, ⟨⟩, progress, -⟩ := first
    simp only [Settlement.run, snoozeJob, seq_eq_ok]
    exact ⟨(), worker, (), delay, (), progress, by rw [gone]; rfl⟩
  | release cause delay progress =>
    simp only [Settlement.run, releaseJob, seq_eq_ok] at first
    obtain ⟨⟨⟩, cause, ⟨⟩, delay, -⟩ := first
    simp only [Settlement.run, releaseJob, seq_eq_ok]
    exact ⟨(), cause, (), delay, by rw [gone]; rfl⟩
  | cancelRunning reason =>
    simp only [Settlement.run, cancelRunningJob, gone, Settlement.replay, SettleVerb.own]
    rfl

/-- A settlement that reports success ran the job under its attempt. -/
theorem Settlement.held_of_success (run : c.run env db = .ok (answer, db'))
    (success : answer.outcome.success = true) :
    ∃ job, runningJob db.toCore c.jobId c.attemptId = some job := by
  by_contra gone
  have again := c.replays run (Option.eq_none_iff_forall_ne_some.mpr fun job held => gone ⟨job, held⟩) env
  cases run.symm.trans again
  exact nomatch success.symm.trans c.replay_open

/-- A replay reports that the settlement was made exactly when the ledger has its own status. -/
theorem Settlement.replay_settled (here : core.jobs.get? c.jobId ≠ none) :
    (c.replay core).outcome = .alreadySettled ↔
      ledgerEntry core.attempts c.attemptId = some (c.jobId, c.verb.own) := by
  rw [← replayAnswer_settled]
  have there := Option.isSome_iff_ne_none.mpr here
  obtain ⟨_, _, _, _ | _ | _ | _ | _ | _⟩ := c <;> simp only [Settlement.replay, there, if_true]
  split_ifs with settled
  · simp [settled]
  · rfl

end Answer

section Ledger

variable {env : Env} {c d : Core} {l : Label} {S : Set Label} {a id : Uuid} {s : AttemptStatus}

/-- A transition that deletes nothing keeps an entry, or closes it as its change says. -/
theorem Transition.entry (h : Transition l c d) (kept : ∀ i, l ≠ .delete i)
    (entry : ledgerEntry c.attempts a = some (id, s)) :
    ledgerEntry d.attempts a = some (id, s) ∨
      ∃ i k status, l = .change i k ∧ k.closes = some status ∧
        ledgerEntry d.attempts a = some (id, status) := by
  cases h with
  | start row step current opened fresh =>
    left
    rw [ledgerEntry_put, if_neg fun same => nomatch (same ▸ entry).symm.trans fresh]
    exact entry
  | @change _ i old job m k t plain row step ledger =>
    unfold LedgerMoves at ledger
    split at ledger
    · exact .inl ((ledger a).trans entry)
    · rename_i status closes
      obtain ⟨attempt, -, closed⟩ := ledger
      rw [closed a, entry]
      split_ifs
      · by_cases running : s = .running
        · exact .inr ⟨i, k, status, rfl, closes, by simp [closedEntry, running]⟩
        · exact .inl (by simp [closedEntry, running])
      · exact .inl rfl
  | delete => exact absurd rfl (kept _)
  | mint | promote | dropEdge | enter | reserve | createWorkflow | changeWorkflow => exact .inl entry

/-- The entry of a running attempt after transitions that close attempts with one status only. -/
theorem Steps.entry {status : AttemptStatus} (steps : Steps S c d) (kept : ∀ i, .delete i ∉ S)
    (only : ∀ i k s, .change i k ∈ S → k.closes = some s → s = status)
    (entry : ledgerEntry c.attempts a = some (id, .running)) :
    ledgerEntry d.attempts a = some (id, .running) ∨ ledgerEntry d.attempts a = some (id, status) := by
  refine steps.invariant (I := fun d => ledgerEntry d.attempts a = some (id, .running) ∨
    ledgerEntry d.attempts a = some (id, status)) (fun {l c d} member h entries => ?_) (.inl entry)
  have safe (i : Uuid) : l ≠ .delete i := fun same => kept i (same ▸ member)
  obtain running | closed := entries
  · obtain still | ⟨i, k, s, rfl, closes, now⟩ := h.entry safe running
    · exact .inl still
    · exact .inr (only i k s member closes ▸ now)
  · obtain still | ⟨i, k, s, rfl, closes, now⟩ := h.entry safe closed
    · exact .inr still
    · exact .inr (only i k s member closes ▸ now)

/-- A change that closes the attempt of its job leaves the entry closed. -/
theorem Rewrites.entry {db db' : Db} {k : Change} {old : Job} {status : AttemptStatus}
    (rewrites : Rewrites env id k db db') (closes : k.closes = some status)
    (stored : db.jobs.get? id = some old) (current : old.currentAttemptId = some a)
    (running : ledgerEntry db.attempts a = some (id, .running)) :
    ledgerEntry db'.attempts a = some (id, status) := by
  obtain ⟨h, -, -⟩ := rewrites
  generalize db'.toCore = d at h
  cases h with
  | start => cases closes
  | promote => cases closes
  | change plain row step ledger =>
    cases stored.symm.trans row.stored
    simp only [LedgerMoves, closes] at ledger
    obtain ⟨attempt, own, closed⟩ := ledger
    cases current.symm.trans own
    rw [closed a, if_pos rfl, running]
    rfl

end Ledger

section Verdict

variable {env : Env} {c : Settlement} {db db' : Db} {answer : SettleResult} {job : Job}

/-- The ledger status under which a settlement of this job closes its attempt. -/
def SettleVerb.verdict (verb : SettleVerb) (job : JobRow) : AttemptStatus :=
  if verb.yields ∧ job.cancelRequestedAt.isSome then .cancelled else verb.own

theorem Ends.entry {jobId attemptId : Uuid} {k : Change} {status : AttemptStatus}
    (ends : Ends env jobId k db db') (closes : k.closes = some status)
    (held : runningJob db.toCore jobId attemptId = some job)
    (running : ledgerEntry db.attempts attemptId = some (jobId, .running)) :
    ledgerEntry db'.attempts attemptId = some (jobId, status) := by
  obtain ⟨stored, -, current⟩ := runningJob_eq_some.mp held
  obtain ⟨mid, rewrites, cascade⟩ := ends
  refine cascade.steps.invariant (I := fun d => ledgerEntry d.attempts attemptId = some (jobId, status))
    (fun member h entry => ?_) (rewrites.entry closes stored current running)
  obtain ⟨child, rfl⟩ := member
  obtain still | ⟨i, k, s, label, closes, -⟩ := h.entry (by simp) entry
  · exact still
  · cases label
    cases closes

theorem Settles.entry {own : List Change} {jobId attemptId : Uuid}
    (settles : Settles env own jobId attemptId db db') (status : AttemptStatus)
    (closes : ∀ k ∈ own, k.closes = some status)
    (held : runningJob db.toCore jobId attemptId = some job)
    (running : ledgerEntry db.attempts attemptId = some (jobId, .running)) :
    ledgerEntry db'.attempts attemptId =
      some (jobId, if job.cancelRequestedAt.isSome then .cancelled else status) := by
  obtain ⟨gone, -⟩ | ⟨job', held', k, member, ends⟩ := settles
  · exact nomatch gone.symm.trans held
  cases held.symm.trans held'
  unfold settling at member
  split_ifs at member ⊢
  · cases List.mem_singleton.mp member
    exact ends.entry rfl held running
  · exact ends.entry (closes k member) held running

theorem Completes.entry {jobId attemptId : Uuid} {specs : List Jsonb} (ok : LedgerOk db.toCore)
    (completes : Completes env jobId attemptId specs db db' answer)
    (held : runningJob db.toCore jobId attemptId = some job) :
    ledgerEntry db'.attempts attemptId = some (jobId, .succeeded) := by
  obtain ⟨gone, -⟩ | ⟨job', -, run, -⟩ := completes
  · cases gone.symm.trans held
  obtain ⟨stored, -, current⟩ := runningJob_eq_some.mp held
  have running := ok.currentAttempt stored current
  obtain @⟨reserved, mid, settled, taken, settle, follow, -, continues, -⟩ := run
  have reserve := reserveFollowups_path env taken
  have first : Steps ({l | ∃ w, l = .reserve w} ∪ (changesOf jobId [.succeed] ∪ promotions))
      db.toCore mid.toCore :=
    (reserve.steps.mono Set.subset_union_left).trans (settle.steps.mono Set.subset_union_right)
  have stuck (still : ledgerEntry mid.attempts attemptId = some (jobId, .running)) : False := by
    have after := first.invariant (fun _ h ok => ok.step h) ok
    have runs := ((after.shaped jobId _ continues.stored).1).mpr
      (by simp [JobRow.life, (after.current jobId _ continues.stored attemptId).mpr still])
    cases continues.succeeded.symm.trans runs
  have only (i : Uuid) (k : Change) (s : AttemptStatus)
      (member : .change i k ∈ {l | ∃ w, l = .reserve w} ∪ (changesOf jobId [.succeed] ∪ promotions))
      (closes : k.closes = some s) : s = .succeeded := by
    have promoted : k = .succeed ∨ k = .promote := by
      simp [changesOf, promotions] at member
      grind
    obtain rfl | rfl := promoted
    · exact (Option.some.inj closes).symm
    · cases closes
  have settled := (Steps.entry first (by simp [changesOf, promotions]) only running).resolve_left stuck
  have path := enqueueFollowups_path follow (Nat.zero_le _) continues
    fun spec member joins => ⟨spec, member, joins⟩
  refine path.steps.invariant (I := fun d => ledgerEntry d.attempts attemptId = some (jobId, .succeeded))
    (fun member h entry => ?_) settled
  obtain still | ⟨i, k, s, rfl, -, -⟩ := h.entry (by rintro i rfl; simp [followups] at member) entry
  · exact still
  · simp [followups] at member

/-- A settlement of a running job closes its attempt under the verdict. -/
theorem Settlement.closes (ok : LedgerOk db.toCore)
    (run : c.run env db = .ok (answer, db'))
    (held : runningJob db.toCore c.jobId c.attemptId = some job) :
    ledgerEntry db'.attempts c.attemptId = some (c.jobId, c.verb.verdict job.toJobRow) := by
  obtain ⟨stored, -, current⟩ := runningJob_eq_some.mp held
  have running := ok.currentAttempt stored current
  obtain ⟨jobId, attemptId, worker, verb⟩ := c
  cases verb with
  | complete => exact (completeJob_completes run).entry ok held
  | completeWithPolicy => exact (completeJobWithPolicy_completes run).entry ok held
  | fail =>
    simpa [SettleVerb.verdict, SettleVerb.yields, SettleVerb.own] using
      (failJob_settles run).entry .failed (by simp [failing, Change.closes]) held running
  | snooze =>
    simpa [SettleVerb.verdict, SettleVerb.yields, SettleVerb.own] using
      (snoozeJob_settles run).entry .snoozed (by simp [Change.closes]) held running
  | release =>
    simpa [SettleVerb.verdict, SettleVerb.yields, SettleVerb.own] using
      (releaseJob_settles run).entry .released (by simp [Change.closes]) held running
  | cancelRunning =>
    simpa [SettleVerb.verdict, SettleVerb.yields, SettleVerb.own] using
      (cancelRunningJob_settles run).entry .cancelled (by simp [Change.closes]) held running

/-- A settlement deletes no job. -/
theorem Settlement.keeps (run : c.run env db = .ok (answer, db')) {id : Uuid}
    (here : db.jobs.get? id ≠ none) : db'.jobs.get? id ≠ none := by
  have exec : c.command.exec env db = .ok db' := by rw [c.exec, run]; rfl
  obtain ⟨F, used, steps⟩ := Command.exec_steps exec
  refine steps.present (fun member => ?_) here
  obtain ⟨_, _, _, _ | _ | _ | _ | _ | _⟩ := c <;> cases used <;>
    simp [changesOf, dependents, completions, promotions, followups] at member

/-- A cancellation was requested on the job. -/
def cancelPending (core : Core) (id : Uuid) : Bool :=
  (core.jobs.get? id).any (·.cancelRequestedAt.isSome)

theorem SettleVerb.verdict_eq_own {verb : SettleVerb} :
    verb.verdict job.toJobRow = verb.own ↔ ¬(verb.yields = true ∧ job.cancelRequestedAt.isSome = true) := by
  unfold SettleVerb.verdict
  split_ifs with gives
  · simp only [gives.1, gives.2, and_self, not_true_eq_false, iff_false]
    cases verb <;> simp_all [SettleVerb.yields, SettleVerb.own]
  · simpa using gives

end Verdict

/-- However the installation goes on, as long as the job is there: the same call finds that it was
made, and no settlement of the attempt changes anything. -/
def Settlement.Replays (site : Site) (u : System) (c : Settlement) : Prop :=
  ∀ t, System.Run site anyCall u t → t.db.jobs.get? c.jobId ≠ none →
    (∀ env, ∃ again, c.run env t.db = .ok (again, t.db) ∧ again.outcome = .alreadySettled) ∧
    ∀ env (d : Settlement) answer db', d.jobId = c.jobId → d.attemptId = c.attemptId →
      d.run env t.db = .ok (answer, db') → db' = t.db

/-- A successful settlement replays, unless it gave way to a pending cancellation: the ledger then
says cancelled, and the same call is told that it conflicts. -/
theorem settlement_replays {site : Site} {s u : System} {env : Env} {c : Settlement}
    {answer : SettleResult} (reachable : System.Reachable site anyCall s)
    (step : System.Step site env c.command s u) (run : c.run env s.db = .ok (answer, u.db))
    (success : answer.outcome.success = true) :
    c.Replays site u ↔ ¬(c.verb.yields = true ∧ cancelPending s.db.toCore c.jobId = true) := by
  obtain ⟨job, held⟩ := c.held_of_success run success
  obtain ⟨stored, -, -⟩ := runningJob_eq_some.mp held
  have pending : cancelPending s.db.toCore c.jobId = job.cancelRequestedAt.isSome := by
    simp [cancelPending, stored]
  have closed := c.closes reachable.ledgerOk run held
  have reached : System.Reachable site anyCall u := reachable.extend (.step .start trivial step)
  have present : u.db.jobs.get? c.jobId ≠ none := c.keeps run (by simp [stored])
  have minted := reached.minted.jobs c.jobId present
  have final : c.verb.verdict job.toJobRow ≠ .running := by
    unfold SettleVerb.verdict
    split_ifs
    · simp
    · cases c.verb <;> simp [SettleVerb.own]
  have later {t : System} (onward : System.Run site anyCall u t) (here : t.db.jobs.get? c.jobId ≠ none) :
      ledgerEntry t.db.attempts c.attemptId = some (c.jobId, c.verb.verdict job.toJobRow) ∧
        runningJob t.db.toCore c.jobId c.attemptId = none := by
    obtain ⟨status, entry, same⟩ := (onward.ledgerKept minted here).2 _ _ closed
    have ok := (reached.extend onward).ledgerOk
    refine ⟨same final ▸ entry, runningJob_eq_none.mpr fun job' stored' => .inr fun current => ?_⟩
    have running := ok.currentAttempt stored' current
    rw [entry] at running
    exact final ((same final).symm.trans (congrArg Prod.snd (Option.some.inj running)))
  rw [pending, ← SettleVerb.verdict_eq_own]
  constructor
  · intro replays
    obtain ⟨again, rerun, settled⟩ := (replays u .start present).1 env
    obtain ⟨entry, gone⟩ := later .start present
    cases rerun.symm.trans (c.replays run gone env)
    rw [Settlement.replay_settled present, entry] at settled
    exact congrArg Prod.snd (Option.some.inj settled)
  · intro own t onward here
    obtain ⟨entry, gone⟩ := later onward here
    refine ⟨fun env₂ => ⟨_, c.replays run gone env₂, ?_⟩, fun env₂ d answer₂ db' job' attempt rerun => ?_⟩
    · rw [Settlement.replay_settled here, entry, own]
    · have exec : d.command.exec env₂ t.db = .ok db' := by
        rw [d.exec, rerun]
        rfl
      refine Command.superseded d.presents ?_ exec
      rw [job', attempt]
      exact gone

/-- A settlement made after some calls on a fresh installation. -/
theorem Settlement.of_plays {calls : List (Time × Command)} {c : Settlement} {p : Db → Db → Bool}
    (plays : System.plays .plain calls (.installed .plain 0) (fun s =>
      (c.run (.alone .plain 0 (s.xid + 1)) s.db).toOption.any fun r => r.1.outcome.success && p s.db r.2) = true) :
    ∃ (s u : System) (env : Env) (answer : SettleResult), System.Reachable .plain anyCall s ∧
      System.Step .plain env c.command s u ∧ c.run env s.db = .ok (answer, u.db) ∧
      answer.outcome.success = true ∧ p s.db u.db = true := by
  obtain ⟨s, run, there⟩ := System.plays_run anyCall plays fun _ _ _ => trivial
  obtain ⟨⟨answer, db⟩, settled, there⟩ := (Option.any_eq_true _ _).mp there
  have settled := toOption_eq_some.mp settled
  simp only [Bool.and_eq_true] at there
  have exec : c.command.exec (.alone .plain 0 (s.xid + 1)) s.db = .ok db := by
    rw [c.exec, settled]
    rfl
  exact ⟨s, _, _, answer, ⟨0, run⟩, .commit rfl (Nat.lt_succ_self s.xid) exec, settled, there⟩

/-- One job is claimed and snoozed by its worker. -/
def firstSnooze : Settlement := ⟨2, 3, some "w", .snooze (some 1) none none⟩

/-- A snooze that no cancellation met replays. -/
theorem settlement_replays_snoozed : ∃ u : System, firstSnooze.Replays .plain u := by
  have played : System.plays .plain [(0, .ensureQueue (some "q") none), (0, .enqueue (.simple "q")),
      (0, .claimJobs (.simple "q" 1))] (.installed .plain 0) (fun s =>
    (firstSnooze.run (.alone .plain 0 (s.xid + 1)) s.db).toOption.any fun r =>
      r.1.outcome.success && !cancelPending s.db.toCore 2) = true := by decide
  obtain ⟨s, u, env, answer, reachable, step, run, success, unasked⟩ :=
    Settlement.of_plays (p := fun before _ => !cancelPending before.toCore 2) played
  refine ⟨u, (settlement_replays reachable step run success).mpr fun gives => ?_⟩
  have asked : cancelPending s.db.toCore 2 = true := gives.2
  simp [asked] at unasked

/-- A snooze that met a cancellation is told, when it is repeated, that it conflicts. -/
theorem settlement_replays_cancelled : ∃ (s u : System) (env : Env) (answer : SettleResult),
    System.Reachable .plain anyCall s ∧ System.Step .plain env firstSnooze.command s u ∧
    firstSnooze.run env s.db = .ok (answer, u.db) ∧ answer.outcome.success = true ∧
    (∃ (env' : Env) (again : SettleResult) (db : Db), firstSnooze.run env' u.db = .ok (again, db) ∧
      again.outcome = .settleConflict) ∧ ¬firstSnooze.Replays .plain u := by
  have played : System.plays .plain [(0, .ensureQueue (some "q") none), (0, .enqueue (.simple "q")),
      (0, .claimJobs (.simple "q" 1)), (0, .cancelJob 2 (some "op") none)] (.installed .plain 0) (fun s =>
    (firstSnooze.run (.alone .plain 0 (s.xid + 1)) s.db).toOption.any fun r => r.1.outcome.success &&
      ((r.2.jobs.get? 2).isSome &&
        (firstSnooze.run (.alone .plain 0 0) r.2).toOption.any (·.1.outcome = .settleConflict))) = true := by decide
  obtain ⟨s, u, env, answer, reachable, step, run, success, conflict⟩ := Settlement.of_plays
    (p := fun _ db => (db.jobs.get? 2).isSome &&
      (firstSnooze.run (.alone .plain 0 0) db).toOption.any (·.1.outcome = .settleConflict)) played
  simp only [Bool.and_eq_true] at conflict
  obtain ⟨there, conflict⟩ := conflict
  obtain ⟨⟨again, db⟩, rerun, conflict⟩ := (Option.any_eq_true _ _).mp conflict
  have rerun := toOption_eq_some.mp rerun
  have other : again.outcome = .settleConflict := of_decide_eq_true conflict
  refine ⟨s, u, env, answer, reachable, step, run, success, ⟨_, again, db, rerun, other⟩, fun replays => ?_⟩
  obtain ⟨again', rerun', settled⟩ := (replays u .start (Option.isSome_iff_ne_none.mp there)).1
    (.alone .plain 0 0)
  cases rerun.symm.trans rerun'
  cases settled.symm.trans other

end Taskq
