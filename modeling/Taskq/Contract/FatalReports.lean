import Taskq.Worker.Runs

/-! The worker service after a fatal report: it fails and stops, unless the report tells an outcome of its settlement. -/
namespace Taskq
namespace Worker

variable {o : ServiceOptions} {w : Options} {now : ℚ} {draws : Draws} {s u : Service}

/-- The service has failed: its stop is requested and under way, and it is not running again. -/
structure Service.Failing (s : Service) : Prop where
  fatal : s.fatalError = true
  requested : s.stopRequested = true
  stops : s.stopTask ≠ .absent
  state : s.state = .failed ∨ s.state = .stopping ∨ s.state = .stopped

section Failing

/-- The step has not reported a fatal job, and a service that has failed stays so. -/
structure Remains (s u : Service) : Prop where
  fatalReports : u.fatalReports = s.fatalReports
  failing : s.Failing → u.Failing

theorem Remains.trans {t : Service} (first : Remains s t) (second : Remains t u) : Remains s u :=
  ⟨second.fatalReports.trans first.fatalReports, fun failing => second.failing (first.failing failing)⟩

/-- A step that leaves the fields of a failure alone. -/
theorem Remains.of_same (fatalReports : u.fatalReports = s.fatalReports) (fatalError : u.fatalError = s.fatalError)
    (stopRequested : u.stopRequested = s.stopRequested) (stopTask : u.stopTask = s.stopTask)
    (state : u.state = s.state) : Remains s u := by
  refine ⟨fatalReports, fun failing => ⟨fatalError.trans failing.fatal, stopRequested.trans failing.requested, ?_, ?_⟩⟩
  · rw [stopTask]
    exact failing.stops
  · rw [state]
    exact failing.state

theorem Loops.remains (loops : Loops s u) : Remains s u :=
  .of_same loops.fatalReports loops.fatalError loops.stopRequested loops.stopTask loops.state

theorem Service.ensureStopTask_stops : s.ensureStopTask.stopTask ≠ .absent := by
  unfold ensureStopTask
  dsimp only
  split_ifs with absent
  · exact fun same => nomatch same
  · exact absent

theorem Service.failService_failing : s.failService.Failing ∧ s.failService.state = .failed :=
  ⟨⟨rfl, rfl, ensureStopTask_stops, .inl rfl⟩, rfl⟩

theorem Service.failService_remains : Remains s s.failService := ⟨rfl, fun _ => failService_failing.1⟩

theorem Service.requestStop_remains : Remains s s.requestStop :=
  ⟨rfl, fun failing => ⟨failing.fatal, rfl, ensureStopTask_stops, failing.state⟩⟩

theorem Service.ensureStopTask_remains : Remains s s.ensureStopTask :=
  ⟨rfl, fun failing => ⟨failing.fatal, failing.requested, ensureStopTask_stops, failing.state⟩⟩

theorem Service.refreshRunningState_remains : Remains s (s.refreshRunningState o) := by
  unfold refreshRunningState
  split
  · exact ⟨rfl, id⟩
  · exact ⟨rfl, id⟩
  · exact ⟨rfl, id⟩
  · exact ⟨rfl, id⟩
  · refine ⟨rfl, fun failing => ?_⟩
    obtain state | state | state := failing.state <;> simp_all

theorem Service.resumeSweep_remains {t : Service} {c : Claiming} (before : Remains s t) :
    Remains s (t.resumeSweep o w now draws c) :=
  before.trans resumeSweep_loops.remains

theorem Service.failLoop_remains {t : Service} (before : Remains s t) : Remains s t.failLoop :=
  before.trans ⟨rfl, fun _ => ⟨rfl, rfl, ensureStopTask_stops, .inl rfl⟩⟩

theorem Service.noteClaimError_remains {queue : String} {code : TqCode} :
    Remains s (s.noteClaimError o now draws queue code) := by
  unfold noteClaimError
  dsimp only
  generalize (if code = .unavailable then o.unavailableFatalThreshold else some o.claimFatalThreshold) = threshold
  split_ifs
  · refine .trans ?_ failService_remains
    exact .of_same rfl rfl rfl rfl rfl
  · exact .of_same rfl rfl rfl rfl rfl

theorem Service.claimAnswered_remains {c : Claiming} {result : ClaimResult} :
    Remains s (s.claimAnswered o w now draws c result) := by
  unfold claimAnswered
  cases result with
  | claimed jobs =>
    dsimp only
    split_ifs
    · exact failLoop_remains (.of_same rfl rfl rfl rfl rfl)
    · refine resumeSweep_remains (.trans ?_ (observeClaimResult_loops _ _).remains)
      exact .of_same rfl rfl rfl rfl rfl
    · exact failLoop_remains (.of_same rfl rfl rfl rfl rfl)
  | empty =>
    refine resumeSweep_remains (.trans ?_ (observeClaimResult_loops _ _).remains)
    exact .of_same rfl rfl rfl rfl rfl
  | throttled => exact resumeSweep_remains (.of_same rfl rfl rfl rfl rfl)
  | paused =>
    refine resumeSweep_remains (.trans ?_ (observeClaimResult_loops _ _).remains)
    exact .of_same rfl rfl rfl rfl rfl
  | unknownQueue => exact failLoop_remains (.of_same rfl rfl rfl rfl rfl)
  | unavailable => exact failLoop_remains (.of_same rfl rfl rfl rfl rfl)

theorem Service.started_remains {shutdownRequested : Bool} : Remains s (s.started o shutdownRequested) := by
  unfold started
  dsimp only
  split_ifs
  · exact .trans ensureStopTask_remains ⟨rfl, fun failing => ⟨failing.fatal, rfl, failing.stops, failing.state⟩⟩
  · exact .of_same rfl rfl rfl rfl rfl
  · exact .of_same rfl rfl rfl rfl rfl
  · refine .trans (.trans ?_ (refreshRunningState_remains (o := o))) (.of_same rfl rfl rfl rfl rfl)
    exact .of_same rfl rfl rfl rfl rfl

theorem Service.stopOn_remains (run : s.stopOn o = some u) : Remains s u := by
  have drains {t : Service} (before : Remains s t) : Remains s { t with
      admissionClosed := true
      supervisor := t.supervisor.stop t.cancelStopRequested
      stopTask := .supervisor } :=
    ⟨before.fatalReports, fun failing => ⟨(before.failing failing).fatal, (before.failing failing).requested,
      fun same => (nomatch same), (before.failing failing).state⟩⟩
  have stopping : Remains s { s with state := .stopping, stopRequested := true }.nudge :=
    ⟨rfl, fun failing => ⟨failing.fatal, rfl, failing.stops, .inr (.inl rfl)⟩⟩
  unfold stopOn at run
  dsimp only at run
  split at run
  · split at run
    · cases run
      exact drains stopping
    · cases run
      exact ⟨rfl, fun failing => ⟨failing.fatal, rfl, fun same => (nomatch same), .inr (.inl rfl)⟩⟩
  · split at run
    · cases run
      exact drains (.of_same rfl rfl rfl rfl rfl)
    · cases run
  · split_ifs at run
    cases run
    exact ⟨rfl, fun failing => ⟨failing.fatal, failing.requested, fun same => (nomatch same), .inr (.inr rfl)⟩⟩
  · cases run
  · cases run

/-- A step that is no callback of a job. -/
theorem Service.step_remains {event : ServiceEvent} (other : ∀ i, event ≠ .observe i)
    (run : s.step o w now draws event = some u) : Remains s u := by
  cases event with
  | start =>
    simp only [step] at run
    split_ifs at run with new
    cases run
    refine ⟨rfl, fun failing => ?_⟩
    obtain state | state | state := failing.state <;> simp_all
  | presence healthy shutdown =>
    have written : Remains s ({ s with presenceHealthy := healthy }.refreshRunningState o) := by
      refine .trans ?_ refreshRunningState_remains
      exact .of_same rfl rfl rfl rfl rfl
    simp only [step] at run
    split at run
    · cases run
      exact written.trans started_remains
    · cases run
      split_ifs
      · exact written.trans requestStop_remains
      · exact written
    · cases run
    · cases run
  | listener connected =>
    have heard : Remains s ((if connected then
        { s with listenerAttempted := true, listenerConnected := connected }.nudge
        else { s with listenerAttempted := true, listenerConnected := connected }).refreshRunningState o) := by
      refine .trans ?_ refreshRunningState_remains
      split_ifs <;> exact .of_same rfl rfl rfl rfl rfl
    simp only [step] at run
    split at run
    · cases run
      exact heard.trans (.of_same rfl rfl rfl rfl rfl)
    · cases run
      exact heard
    · cases run
    · cases run
  | claims =>
    simp only [step] at run
    split at run
    · cases run
      exact beginLoop_loops.remains
    · cases run
  | capacity =>
    simp only [step] at run
    split at run
    · split_ifs at run
      · cases run
        exact .of_same rfl rfl rfl rfl rfl
      · cases run
        exact sweep_loops.remains
    · cases run
  | answered result =>
    simp only [step] at run
    split at run
    · cases run
      exact claimAnswered_remains
    · cases run
  | refused code =>
    simp only [step] at run
    split at run
    · cases run
      exact resumeSweep_remains noteClaimError_remains
    · cases run
  | broken =>
    simp only [step] at run
    split at run
    · cases run
      exact failLoop_remains (.of_same rfl rfl rfl rfl rfl)
    · cases run
  | polled reason =>
    simp only [step] at run
    split at run
    · split_ifs at run
      cases run
      exact polled_loops.remains
    · cases run
  | rested =>
    simp only [step] at run
    split at run
    · split_ifs at run
      cases run
      refine .trans ?_ beginLoop_loops.remains
      exact .of_same rfl rfl rfl rfl rfl
    · cases run
  | nudge =>
    cases run
    exact .of_same rfl rfl rfl rfl rfl
  | job i event =>
    simp only [step] at run
    split_ifs at run
    obtain ⟨supervisor, -, rfl⟩ := Option.map_eq_some_iff.mp run
    exact .of_same rfl rfl rfl rfl rfl
  | observe i => exact absurd rfl (other i)
  | stop cancel =>
    simp only [step] at run
    split_ifs at run with new
    · cases run
      refine ⟨rfl, fun failing => ?_⟩
      obtain state | state | state := failing.state <;> simp_all
    · cases run
      exact .of_same rfl rfl rfl rfl rfl
    · cases run
      refine .trans ?_ ensureStopTask_remains
      exact .of_same rfl rfl rfl rfl rfl
  | stopping => exact stopOn_remains run
  | deadline =>
    simp only [step] at run
    split_ifs at run
    cases run
    exact .of_same rfl rfl rfl rfl rfl
  | stopped =>
    simp only [step] at run
    split_ifs at run
    cases run
    exact .of_same rfl rfl rfl rfl rfl

/-- What a callback with a fatal report does: it fails the service, or nothing when the report tells an outcome. -/
theorem Service.observeReport_failing {r : JobRunReport} (fatal : r.fatal = true) :
    (s.observeReport r).Failing ∧ (s.observeReport r).state = .failed ↔
      r.settlementOutcome = none ∨ s.Failing ∧ s.state = .failed := by
  unfold observeReport
  rw [if_pos fatal]
  cases r.settlementOutcome with
  | none => simp [failService_failing]
  | some outcome => simp

theorem Service.observeReport_calm {r : JobRunReport} (calm : r.fatal = false) : Remains s (s.observeReport r) := by
  unfold observeReport
  rw [if_neg (by simp [calm])]
  split_ifs
  · exact requestStop_remains
  · exact ⟨rfl, id⟩

end Failing

section Kinds

theorem steady_orderly : Steady Orderly where
  soft := fun t orderly => by
    have told : t.step {} false false 0 .softStop = some (t.withControl (·.cancel .shutdown)) := rfl
    exact orderly.step told
  hard := fun t orderly => by
    have told : t.step {} false false 0 .deadline = some t.enforceShutdownDeadline := rfl
    exact orderly.step told

/-- The tasks of a service are orderly. -/
theorem Service.Run.each_orderly {allowed : Service → ServiceEvent → Prop}
    (run : Service.Run o w allowed (.constructed o) s) : s.supervisor.Each Orderly :=
  run.induction (fun _ none => nomatch none) fun each _ step =>
    step_each steady_orderly (fun jobId leaseSeconds => .submitted jobId leaseSeconds) each
      (fun _ _ _ _ _ _ orderly taken => orderly.step taken) step

/-- A report of a runtime error or of an unknown settlement. -/
def JobRunReport.unsettled (r : JobRunReport) : Prop := r.outcome = .runtimeError ∨ r.outcome = .settlementUnknown

/-- The report with which the task of the job at a position ended. -/
def Service.reportAt (s : Service) (i : ℕ) : Option JobRunReport :=
  s.supervisor.jobs[i]?.bind fun e =>
    match e.task.stage with
    | .ended (.report r) => some r
    | _ => none

theorem Service.reportAt_eq_some {i : ℕ} {r : JobRunReport} :
    s.reportAt i = some r ↔ ∃ e, s.supervisor.jobs[i]? = some e ∧ e.task.stage = .ended (.report r) := by
  unfold reportAt
  rw [Option.bind_eq_some_iff]
  refine exists_congr fun e => and_congr_right fun _ => ?_
  split
  · rename_i stage
    simp [stage]
  · rename_i other
    exact ⟨fun same => (nomatch same), fun stage => absurd stage (other r)⟩

/-- The fatal reports of which the service is called back are runtime errors and unknown settlements. -/
def unsettledOnly (s : Service) (event : ServiceEvent) : Prop :=
  ∀ i r, event = .observe i → s.reportAt i = some r → r.fatal = true → r.unsettled

/-- What the callback of a job's task does, by the way the task ended. -/
theorem Service.step_observe {i : ℕ} (run : s.step o w now draws (.observe i) = some u) :
    ∃ e ended supervisor, s.supervisor.jobs[i]? = some e ∧ e.task.stage = .ended ended ∧
      u = { s with supervisor := supervisor }.observeJob ended := by
  simp only [step] at run
  split at run
  · rename_i e there
    split at run
    · rename_i ended stage
      split_ifs at run
      cases run
      exact ⟨e, ended, _, there, stage, rfl⟩
    · cases run
  · cases run

/-- The reports that end in a failure of the service. -/
theorem Service.observeJob_failing {r : JobRunReport} (fatal : r.fatal = true) :
    (s.observeJob (.report r)).Failing ∧ (s.observeJob (.report r)).state = .failed ↔
      r.settlementOutcome = none ∨ s.Failing ∧ s.state = .failed := by
  have same (t : Service) (reports : List JobRunReport) : ({ t with fatalReports := reports }.Failing ∧
      { t with fatalReports := reports }.state = .failed) ↔ t.Failing ∧ t.state = .failed :=
    ⟨fun ⟨⟨a, b, c, d⟩, e⟩ => ⟨⟨a, b, c, d⟩, e⟩, fun ⟨⟨a, b, c, d⟩, e⟩ => ⟨⟨a, b, c, d⟩, e⟩⟩
  exact (same _ _).trans (observeReport_failing fatal)

/-- Once the service has been called back with a fatal report it is failing, as long as these are unsettled. -/
theorem Service.Run.failing (run : Service.Run o w unsettledOnly (.constructed o) s) :
    s.supervisor.Each Orderly ∧ (s.fatalReports ≠ [] → s.Failing) := by
  refine ⟨run.each_orderly, ?_⟩
  induction run with
  | start => exact fun reported => absurd rfl reported
  | @step s u event now draws before permitted taken ih =>
    intro reported
    by_cases callback : ∃ i, event = .observe i
    · obtain ⟨i, rfl⟩ := callback
      obtain ⟨e, ended, supervisor, there, stage, rfl⟩ := step_observe taken
      have same : Remains s { s with supervisor := supervisor } := .of_same rfl rfl rfl rfl rfl
      cases ended with
      | cancelled => exact same.failing (ih reported)
      | raised => exact failService_failing.1
      | report r =>
        cases fatal : r.fatal with
        | true =>
          have coherent := (before.each_orderly e (List.mem_of_getElem? there)).reported r (.inr stage)
          have quiet := (coherent.fatal fatal).mpr (permitted i r rfl (reportAt_eq_some.mpr ⟨e, there, stage⟩) fatal)
          exact ((observeJob_failing fatal).mpr (.inl quiet)).1
        | false =>
          have calm := same.trans (observeReport_calm fatal)
          simp only [observeJob, fatal, Bool.false_eq_true, if_false, List.append_nil] at reported ⊢
          obtain ⟨a, b, c, d⟩ := calm.failing (ih reported)
          exact ⟨a, b, c, d⟩
    · have remains := step_remains (fun i same => callback ⟨i, same⟩) taken
      exact remains.failing (ih (remains.fatalReports ▸ reported))

end Kinds

/-- In every run in which the fatal reports are runtime errors and unknown settlements, the service has failed once it
is called back with one, and never runs again. The callback with a fatal report fails the service exactly then, unless
the service had failed before. -/
theorem fatal_report_stops_service :
    (Service.Run o w unsettledOnly (.constructed o) s → s.fatalReports ≠ [] → s.Failing) ∧
    ∀ allowed, Service.Run o w allowed (.constructed o) s →
      ∀ i r, s.reportAt i = some r → r.fatal = true → s.step o w now draws (.observe i) = some u →
        (u.Failing ∧ u.state = .failed ↔ r.unsettled ∨ s.Failing ∧ s.state = .failed) := by
  refine ⟨fun run => run.failing.2, fun allowed run i r ended fatal step => ?_⟩
  obtain ⟨e, there, stage⟩ := Service.reportAt_eq_some.mp ended
  obtain ⟨e', ended, supervisor, there', stage', rfl⟩ := Service.step_observe step
  cases there.symm.trans there'
  cases stage.symm.trans stage'
  have coherent := (run.each_orderly e (List.mem_of_getElem? there)).reported r (.inr stage)
  rw [Service.observeJob_failing fatal, coherent.fatal fatal]
  exact or_congr Iff.rfl ⟨fun ⟨⟨a, b, c, d⟩, e⟩ => ⟨⟨a, b, c, d⟩, e⟩, fun ⟨⟨a, b, c, d⟩, e⟩ => ⟨⟨a, b, c, d⟩, e⟩⟩

section Witnesses

/-- A service with one queue and no listener. -/
def oneQueue : ServiceOptions := { queues := ["q"], listen := false }

/-- The service claims a job, whose handler completes; the completion is answered. -/
def firstJob (answer : JobEvent) : List (ℚ × ServiceEvent) :=
  [(0, .start), (0, .presence true false), (0, .claims), (0, .answered (.claimed [⟨2, 3, 60⟩])),
    (0, .job 0 (.start (.ready false))), (0, .job 0 (.handlerEnded (.returned (.intent (.complete false))))),
    (0, .job 0 answer), (0, .job 0 .awaited)]

/-- The completion raises a conflict, which is no outcome of a settlement: the service fails. -/
theorem fatal_report_stops_service_raised : ∃ s : Service, s.fatalReports ≠ [] ∧ s.Failing := by
  have played : ((Service.constructed oneQueue).plays oneQueue {}
      (firstJob (.failed (.taskq .conflict none 0) 0))).any (fun t =>
        decide (t.reportAt 0 = some (runtimeFailure 2 .complete)) &&
        (t.step oneQueue {} 0 ⟨0, 0⟩ (.observe 0)).any fun s => !s.fatalReports.isEmpty) = true := by decide +kernel
  obtain ⟨t, reached, ends⟩ := (Option.any_eq_true _ _).mp played
  rw [Bool.and_eq_true, decide_eq_true_eq] at ends
  obtain ⟨s, step, reported⟩ := (Option.any_eq_true _ _).mp ends.2
  have run : Service.Run oneQueue {} unsettledOnly (.constructed oneQueue) t := by
    refine Service.Run.plays .start (fun t event member i r same => ?_) reached
    subst same
    simp [firstJob] at member
  have last : unsettledOnly t (.observe 0) := by
    intro i r same ended _
    cases same
    cases ends.1.symm.trans ended
    exact .inl rfl
  have nonempty : s.fatalReports ≠ [] := by
    intro empty
    simp [empty] at reported
  have stopped := (@fatal_report_stops_service oneQueue {} 0 ⟨0, 0⟩ s s).1
  exact ⟨s, nonempty, stopped (.step run last step) nonempty⟩

/-- The completion is answered as a conflict: the report is fatal and tells this outcome, and the service goes on
running, with a supervisor that takes no job. -/
theorem fatal_report_stops_service_conflict : ∃ (o : ServiceOptions) (w : Options) (s : Service),
    Service.Run o w (fun _ _ => True) (.constructed o) s ∧ s.fatalReports ≠ [] ∧ s.state = .running ∧
    s.stopRequested = false ∧ s.stopTask = .absent ∧ s.supervisor.accepting = false := by
  have played : ((Service.constructed oneQueue).plays oneQueue {}
      (firstJob (.answered .settleConflict) ++ [(0, .observe 0)])).any (fun s =>
        !s.fatalReports.isEmpty && decide (s.state = .running) && !s.stopRequested &&
        decide (s.stopTask = .absent) && !s.supervisor.accepting) = true := by decide +kernel
  obtain ⟨s, reached, ends⟩ := (Option.any_eq_true _ _).mp played
  simp only [Bool.and_eq_true, decide_eq_true_eq, Bool.not_eq_true'] at ends
  obtain ⟨⟨⟨⟨reported, running⟩, requested⟩, absent⟩, closed⟩ := ends
  refine ⟨oneQueue, {}, s, Service.Run.plays .start (fun _ _ _ => trivial) reached, ?_, running, requested, absent, closed⟩
  intro empty
  simp [empty] at reported

end Witnesses

end Worker
end Taskq
