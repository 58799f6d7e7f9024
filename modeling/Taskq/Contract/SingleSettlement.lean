import Taskq.Contract.Replay
import Taskq.Worker.Orderly

/-! The supervision of a job next to the server: whatever the transport does, one verb settles the attempt, and a
settled report is the ledger's. -/
namespace Taskq
namespace Worker

/-- A settle call's verb. -/
def verbOf : SettleVerb → Verb
  | .complete .. | .completeWithPolicy .. => .complete
  | .fail .. => .fail
  | .snooze .. => .snooze
  | .release .. => .release
  | .cancelRunning .. => .cancelRunning

/-- A job's supervision and the server; `answers` records what the server's calls for the attempt returned, and the
installation that each of them left. -/
structure Supervised where
  task : JobTask
  system : System
  answers : List (Verb × SettleOutcome × System)

section Run

variable (site : Site) (o : Options) (attemptId : Uuid)

/-- The server executes any call of anybody, or a verb that the supervision has sent for the attempt, whether its
answer ever arrives or not; or the supervision takes a step, and what it is told of a verb is an answer of the
server. -/
inductive Supervised.Step (s : Supervised) : Supervised → Prop
  | serve {env : Env} {command : Command} {after : System} (step : System.Step site env command s.system after) :
    Supervised.Step s { s with system := after }
  | commit {env : Env} {c : Taskq.Settlement} {answer : SettleResult} {after : System}
      (sent : verbOf c.verb ∈ s.task.sent) (own : c.jobId = s.task.jobId ∧ c.attemptId = attemptId)
      (step : System.Step site env c.command s.system after)
      (run : c.run env s.system.db = .ok (answer, after.db)) :
    Supervised.Step s ⟨s.task, after, s.answers ++ [(verbOf c.verb, answer.outcome, after)]⟩
  | act {stopping deadlineReached : Bool} {now : ℚ} {event : JobEvent} {task : JobTask}
      (told : ∀ q result, s.task.stage = .settling q → event = .answered result →
        ∃ at', (q.loop.command, result, at') ∈ s.answers)
      (step : s.task.step o stopping deadlineReached now event = some task) :
    Supervised.Step s { s with task := task }

inductive Supervised.Run (s : Supervised) : Supervised → Prop
  | start : Supervised.Run s s
  | step {t u : Supervised} (run : Supervised.Run s t) (step : Supervised.Step site o attemptId t u) :
    Supervised.Run s u

end Run

section Answers

variable {env : Env} {c : Taskq.Settlement} {db db' : Db} {answer : SettleResult}

/-- The outcomes that the supervision takes for a settled attempt. -/
def affirms (outcome : SettleOutcome) : Prop := outcome ≠ .lost ∧ outcome ≠ .settleConflict

/-- The ledger records a settlement of the attempt. -/
def Recorded (core : Core) (jobId attemptId : Uuid) : Prop :=
  ∃ status, status ≠ .running ∧ ledgerEntry core.attempts attemptId = some (jobId, status)

theorem own_final (verb : SettleVerb) : verb.own ≠ .running := by
  cases verb <;> exact fun same => nomatch same

theorem verdict_final (verb : SettleVerb) (job : JobRow) : verb.verdict job ≠ .running := by
  unfold SettleVerb.verdict
  split_ifs
  · exact fun same => nomatch same
  · exact own_final verb

/-- The answer to a repeated settlement affirms it only when the ledger has it. -/
theorem replay_recorded {core : Core} (affirmed : affirms (c.replay core).outcome) :
    Recorded core c.jobId c.attemptId := by
  have entry (own : AttemptStatus) (final : own ≠ .running)
      (affirmed : affirms (replayAnswer core c.jobId c.attemptId own).outcome) :
      Recorded core c.jobId c.attemptId := by
    refine ⟨own, final, replayAnswer_settled.mp ?_⟩
    unfold replayAnswer at affirmed ⊢
    split at affirmed
    · exact absurd rfl affirmed.1
    · split_ifs at affirmed ⊢ with same open'
      · rfl
      · exact absurd rfl affirmed.1
      · exact absurd rfl affirmed.2
  obtain ⟨jobId, attemptId, worker, verb⟩ := c
  cases verb with
  | complete =>
    simp only [Taskq.Settlement.replay] at affirmed
    split_ifs at affirmed
    · exact entry _ (own_final _) affirmed
    · exact absurd rfl affirmed.1
  | completeWithPolicy =>
    simp only [Taskq.Settlement.replay] at affirmed
    split_ifs at affirmed
    · exact entry _ (own_final _) affirmed
    · exact absurd rfl affirmed.1
  | fail => exact entry _ (own_final _) affirmed
  | snooze => exact entry _ (own_final _) affirmed
  | release => exact entry _ (own_final _) affirmed
  | cancelRunning =>
    simp only [Taskq.Settlement.replay] at affirmed
    split_ifs at affirmed
    · exact entry _ (own_final _) affirmed
    · exact entry _ (own_final _) affirmed

/-- A settle call that affirms leaves its settlement in the ledger. -/
theorem affirmed_recorded (ok : LedgerOk db.toCore) (run : c.run env db = .ok (answer, db'))
    (affirmed : affirms answer.outcome) : Recorded db'.toCore c.jobId c.attemptId := by
  cases held : runningJob db.toCore c.jobId c.attemptId with
  | none =>
    cases run.symm.trans (c.replays run held env)
    exact replay_recorded affirmed
  | some job => exact ⟨_, verdict_final _ _, c.closes ok run held⟩

end Answers

section Truth

variable {site : Site} {o : Options} {attemptId : Uuid} {x y u : Supervised}

/-- What the supervision has been told is what the ledger says, then and as long as the job is there. -/
structure Told (site : Site) (attemptId : Uuid) (x : Supervised) : Prop where
  reachable : System.Reachable site anyCall x.system
  recorded : ∀ v outcome at', (v, outcome, at') ∈ x.answers → affirms outcome →
    System.Reachable site anyCall at' ∧ System.Run site anyCall at' x.system ∧
      Recorded at'.db.toCore x.task.jobId attemptId

theorem Told.step (told : Told site attemptId x) (orderly : Orderly x.task)
    (step : Supervised.Step site o attemptId x y) :
    Told site attemptId y := by
  cases step with
  | serve step =>
    refine ⟨told.reachable.extend (.step .start trivial step), fun v outcome at' member affirmed => ?_⟩
    obtain ⟨reached, run, recorded⟩ := told.recorded v outcome at' member affirmed
    exact ⟨reached, .step run trivial step, recorded⟩
  | @commit env c answer after sent own step run =>
    have reached := told.reachable.extend (.step .start trivial step)
    refine ⟨reached, fun v outcome at' member affirmed => ?_⟩
    obtain member | last := List.mem_append.mp member
    · obtain ⟨reached, run, recorded⟩ := told.recorded v outcome at' member affirmed
      exact ⟨reached, .step run trivial step, recorded⟩
    · cases List.mem_singleton.mp last
      have recorded := affirmed_recorded told.reachable.ledgerOk run affirmed
      rw [own.1, own.2] at recorded
      exact ⟨reached, .start, recorded⟩
  | act heard run =>
    refine ⟨told.reachable, fun v outcome at' member affirmed => ?_⟩
    obtain ⟨reached, onward, recorded⟩ := told.recorded v outcome at' member affirmed
    refine ⟨reached, onward, ?_⟩
    rw [JobTask.step_jobId run fun created => (orderly.bare (.inl created)).1]
    exact recorded

/-- A settlement in the ledger stays there as long as the job does. -/
theorem Recorded.kept {s t : System} {jobId : Uuid} (recorded : Recorded s.db.toCore jobId attemptId)
    (reachable : System.Reachable site anyCall s) (run : System.Run site anyCall s t)
    (here : t.db.jobs.get? jobId ≠ none) : Recorded t.db.toCore jobId attemptId := by
  obtain ⟨status, final, entry⟩ := recorded
  have minted := reachable.minted.jobs jobId (reachable.ledgerOk.owned _ _ _ entry).2
  obtain ⟨later, still, same⟩ := (run.ledgerKept minted here).2 _ _ entry
  exact ⟨later, fun running => final ((same final).symm.trans running), still⟩

/-- A settled report rests on an answer of the server. -/
def Supervised.Truthful (x : Supervised) : Prop :=
  ReportsSettled x.task → ∃ v outcome at', (v, outcome, at') ∈ x.answers ∧ affirms outcome

theorem Supervised.Truthful.step (truthful : x.Truthful) (orderly : Orderly x.task)
    (step : Supervised.Step site o attemptId x y) : y.Truthful := by
  intro reports
  cases step with
  | serve => exact truthful reports
  | commit =>
    obtain ⟨v, outcome, at', member, affirmed⟩ := truthful reports
    exact ⟨v, outcome, at', List.mem_append_left _ member, affirmed⟩
  | act told run =>
    obtain before | ⟨q, result, stage, -, heard, affirmed⟩ := orderly.reports run reports
    · exact truthful before
    · obtain ⟨at', member⟩ := told q result stage heard
      exact ⟨_, result, at', member, affirmed⟩

theorem Supervised.Run.orderly (orderly : Orderly x.task) (run : Supervised.Run site o attemptId x u) :
    Orderly u.task := by
  induction run with
  | start => exact orderly
  | step _ step ih =>
    cases step with
    | serve => exact ih
    | commit => exact ih
    | act _ run => exact ih.step run

theorem Supervised.Run.silent (orderly : Orderly x.task) (lost : lostBy x.task.control = true)
    (run : Supervised.Run site o attemptId x u) :
    u.task.sent = x.task.sent ∧ lostBy u.task.control = true := by
  induction run with
  | start => exact ⟨rfl, lost⟩
  | step before step ih =>
    cases step with
    | serve => exact ih
    | commit => exact ih
    | act _ run =>
      obtain ⟨same, still⟩ := (before.orderly orderly).lost run ih.2
      exact ⟨same.trans ih.1, still⟩

theorem Supervised.Run.truth (reachable : System.Reachable site anyCall x.system) (orderly : Orderly x.task)
    (fresh : x.answers = []) (none : ¬ReportsSettled x.task) (run : Supervised.Run site o attemptId x u) :
    Told site attemptId u ∧ u.Truthful ∧ u.task.jobId = x.task.jobId := by
  induction run with
  | start => exact ⟨⟨reachable, by simp [fresh]⟩, fun reports => absurd reports none, rfl⟩
  | step before step ih =>
    obtain ⟨told, truthful, same⟩ := ih
    refine ⟨told.step (before.orderly orderly) step, truthful.step (before.orderly orderly) step, ?_⟩
    cases step with
    | serve => exact same
    | commit => exact same
    | act _ run => exact (JobTask.step_jobId run fun created => ((before.orderly orderly).bare (.inl created)).1).trans same

end Truth

/-- In every run of a supervision and the server, one verb is called for the attempt, apart from the failure of a job
whose completion was refused; none is called after the ownership is lost; and a settled report is backed by an answer
under which the ledger recorded a settlement of the attempt, which is there as long as the job is. -/
theorem attempt_settled_once {site : Site} {o : Options} {s : System} {u : Supervised} {jobId attemptId : Uuid}
    {leaseSeconds : ℤ} (reachable : System.Reachable site anyCall s)
    (run : Supervised.Run site o attemptId ⟨.submitted jobId leaseSeconds, s, []⟩ u) :
    SettlesOnce u.task ∧
    (lostBy u.task.control = true → ∀ w, Supervised.Run site o attemptId u w → w.task.sent = u.task.sent) ∧
    (ReportsSettled u.task →
      (∃ v outcome at', (v, outcome, at') ∈ u.answers ∧ affirms outcome ∧ System.Run site anyCall at' u.system ∧
        Recorded at'.db.toCore jobId attemptId) ∧
      (u.system.db.jobs.get? jobId ≠ none → Recorded u.system.db.toCore jobId attemptId)) := by
  have fresh := Orderly.submitted jobId leaseSeconds
  have orderly := run.orderly fresh
  have unreported : ¬ReportsSettled (.submitted jobId leaseSeconds) := by
    rintro ⟨r, here | here, -⟩
    · exact nomatch here
    · exact nomatch here
  obtain ⟨told, truthful, same⟩ := run.truth reachable fresh rfl unreported
  refine ⟨orderly.once, fun lost w onward => (onward.silent orderly lost).1, fun reports => ?_⟩
  obtain ⟨v, outcome, at', member, affirmed⟩ := truthful reports
  obtain ⟨reached, onward, recorded⟩ := told.recorded v outcome at' member affirmed
  rw [same] at recorded
  exact ⟨⟨v, outcome, at', member, affirmed, onward, recorded⟩, fun here => recorded.kept reached onward here⟩

/-- One job is claimed and completed by its worker. -/
def firstCompletion : Taskq.Settlement := ⟨2, 3, some "w", .complete none none none⟩

theorem attempt_settled_once_completed : ∃ u : Supervised, u.task.sent = [.complete] ∧ SettlesOnce u.task ∧
    Recorded u.system.db.toCore 2 3 := by
  have played : System.plays .plain [(0, .ensureQueue (some "q") none), (0, .enqueue (.simple "q")),
      (0, .claimJobs (.simple "q" 1))] (.installed .plain 0) (fun s =>
    (firstCompletion.run (.alone .plain 0 (s.xid + 1)) s.db).toOption.any fun r =>
      r.1.outcome = .ok && (r.2.jobs.get? 2).isSome) = true := by decide +kernel
  obtain ⟨s, run, there⟩ := System.plays_run anyCall played fun _ _ _ => trivial
  obtain ⟨⟨answer, db⟩, settled, there⟩ := (Option.any_eq_true _ _).mp there
  have settled := Relational.toOption_eq_some.mp settled
  simp only [Bool.and_eq_true, decide_eq_true_eq] at there
  obtain ⟨affirmed, here⟩ := there
  have exec : firstCompletion.command.exec (.alone .plain 0 (s.xid + 1)) s.db = .ok db := by
    rw [firstCompletion.exec, settled]
    rfl
  let after : System := ⟨db, 0, s.xid + 1, s.admitted ++ newJobs s.db db⟩
  have commit : System.Step .plain (.alone .plain 0 (s.xid + 1)) firstCompletion.command s after :=
    .commit rfl (Nat.lt_succ_self s.xid) exec
  let o : Options := {}
  let created : JobTask := .submitted 2 60
  let handling : JobTask := created.start false false 0 (.ready false)
  let calling : JobTask := { handling with handlerDone := true }.afterHandler o { isSync := false, leaseSeconds := 60 }
    (.returned (.intent (.complete false))) 0
  have starts : JobTask.step o false false 0 (.start (.ready false)) created = some handling := rfl
  have calls : JobTask.step o false false 0 (.handlerEnded (.returned (.intent (.complete false)))) handling =
      some calling := rfl
  have called : Supervised.Run .plain o 3 ⟨created, s, []⟩ ⟨calling, s, []⟩ :=
    .step (.step .start (.act (fun _ _ stage => by cases stage) starts)) (.act (fun _ _ stage => by cases stage) calls)
  have committed := called.step (.commit (List.mem_singleton.mpr rfl) ⟨rfl, rfl⟩ commit settled)
  have hears : JobTask.step o false false 0 (.answered .ok) calling = some (calling.close (.report
      { reportFromSettle 2 .complete .ok with cancellationReason := none })) := rfl
  have told : ∀ q result, calling.stage = .settling q → JobEvent.answered .ok = .answered result →
      ∃ at', (q.loop.command, result, at') ∈ [(Verb.complete, answer.outcome, after)] := by
    intro q result stage heard
    cases stage
    cases heard
    rw [affirmed]
    exact ⟨after, List.mem_singleton.mpr rfl⟩
  have answered := committed.step (.act told hears)
  obtain ⟨once, -, reports⟩ := attempt_settled_once ⟨0, run⟩ answered
  exact ⟨_, rfl, once, (reports ⟨_, .inl rfl, rfl⟩).2 (Option.isSome_iff_ne_none.mp here)⟩

end Worker
end Taskq
