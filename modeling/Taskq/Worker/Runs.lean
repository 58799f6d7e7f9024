import Taskq.Worker.Service
import Taskq.Worker.Orderly

/-! Runs of the worker service, and what its steps leave alone. -/
namespace Taskq
namespace Worker

variable {o : ServiceOptions} {w : Options} {now : ℚ} {draws : Draws} {s t u : Service} {c : Claiming}
  {asked waited : Option ℕ}

section Frames

/-- The claim loop has gone on: nothing but its own fields has changed. -/
structure Loops (s u : Service) : Prop where
  supervisor : u.supervisor = s.supervisor
  state : u.state = s.state
  startup : u.startup = s.startup
  stopTask : u.stopTask = s.stopTask
  stopRequested : u.stopRequested = s.stopRequested
  fatalError : u.fatalError = s.fatalError
  generation : u.generation = s.generation
  received : u.received = s.received
  fatalReports : u.fatalReports = s.fatalReports

theorem Loops.refl (s : Service) : Loops s s := ⟨rfl, rfl, rfl, rfl, rfl, rfl, rfl, rfl, rfl⟩

theorem Loops.trans (first : Loops s t) (second : Loops t u) : Loops s u :=
  ⟨second.supervisor.trans first.supervisor, second.state.trans first.state, second.startup.trans first.startup,
    second.stopTask.trans first.stopTask, second.stopRequested.trans first.stopRequested,
    second.fatalError.trans first.fatalError, second.generation.trans first.generation,
    second.received.trans first.received, second.fatalReports.trans first.fatalReports⟩

theorem Service.observeClaimResult_loops (got asked : ℕ) : Loops s (s.observeClaimResult o got asked) := by
  unfold observeClaimResult
  split_ifs <;> exact ⟨rfl, rfl, rfl, rfl, rfl, rfl, rfl, rfl, rfl⟩

theorem Service.nextClaim_loops {claimed : Bool} {rest : ℕ} : Loops s (s.nextClaim o w now claimed rest).1 := by
  induction rest generalizing s with
  | zero => exact .refl s
  | succ rest ih =>
    unfold nextClaim
    dsimp only
    have moved : Loops s { s with queueIndex := (s.queueIndex + 1) % o.queues.length } :=
      ⟨rfl, rfl, rfl, rfl, rfl, rfl, rfl, rfl, rfl⟩
    split_ifs
    · exact .refl s
    · exact moved.trans ih
    · exact moved

theorem Service.waitForPollOrNudge_loops : Loops s (s.waitForPollOrNudge o now draws) := by
  unfold waitForPollOrNudge
  dsimp only
  split_ifs <;> exact ⟨rfl, rfl, rfl, rfl, rfl, rfl, rfl, rfl, rfl⟩

theorem Service.unclaimed_loops {swept : Bool} : Loops s (s.unclaimed o now draws swept) := by
  unfold unclaimed
  dsimp only
  refine .trans ?_ waitForPollOrNudge_loops
  split_ifs <;> exact ⟨rfl, rfl, rfl, rfl, rfl, rfl, rfl, rfl, rfl⟩

theorem Service.sweep_loops : Loops s (s.sweep o w now draws) := by
  have next : Loops s (s.nextClaim o w now false o.queues.length).1 := nextClaim_loops
  unfold sweep
  split
  · rename_i s' c found
    rw [found] at next
    exact next.trans ⟨rfl, rfl, rfl, rfl, rfl, rfl, rfl, rfl, rfl⟩
  · rename_i s' found
    rw [found] at next
    refine next.trans (.trans ?_ unclaimed_loops)
    exact ⟨rfl, rfl, rfl, rfl, rfl, rfl, rfl, rfl, rfl⟩

theorem Service.beginLoop_loops : Loops s (s.beginLoop o w now draws) := by
  unfold beginLoop
  split_ifs
  · exact ⟨rfl, rfl, rfl, rfl, rfl, rfl, rfl, rfl, rfl⟩
  · exact ⟨rfl, rfl, rfl, rfl, rfl, rfl, rfl, rfl, rfl⟩
  · exact sweep_loops

theorem Service.resumeSweep_loops : Loops s (s.resumeSweep o w now draws c) := by
  have next : Loops s (s.nextClaim o w now c.claimed c.rest).1 := nextClaim_loops
  unfold resumeSweep
  split
  · rename_i s' c' found
    rw [found] at next
    exact next.trans ⟨rfl, rfl, rfl, rfl, rfl, rfl, rfl, rfl, rfl⟩
  · rename_i s' found
    rw [found] at next
    refine next.trans ?_
    dsimp only
    split_ifs
    · refine .trans ?_ beginLoop_loops
      exact ⟨rfl, rfl, rfl, rfl, rfl, rfl, rfl, rfl, rfl⟩
    · refine .trans ?_ waitForPollOrNudge_loops
      exact ⟨rfl, rfl, rfl, rfl, rfl, rfl, rfl, rfl, rfl⟩
    · exact unclaimed_loops

theorem Service.polled_loops {reason : Wake} : Loops s (s.polled o w now draws reason) := by
  unfold polled
  dsimp only
  split_ifs
  · exact ⟨rfl, rfl, rfl, rfl, rfl, rfl, rfl, rfl, rfl⟩
  · refine .trans ?_ beginLoop_loops
    exact ⟨rfl, rfl, rfl, rfl, rfl, rfl, rfl, rfl, rfl⟩
  · refine .trans ?_ beginLoop_loops
    exact ⟨rfl, rfl, rfl, rfl, rfl, rfl, rfl, rfl, rfl⟩

end Frames

section Placed

/-- The claim loop has gone on to an await of its own: a claim leaves room for its jobs, in a sweep that made its first
claim when as many nudges had arrived as `asked` says; a wait for nudges has seen the nudges so far, after a sweep that
made it as `waited` says. -/
structure Placed (w : Options) (asked waited : Option ℕ) (u : Service) : Prop where
  room : ∀ c, u.claimLoop = .claiming c → c.batch ≤ u.supervisor.availableSlots w
  asks : ∀ c, u.claimLoop = .claiming c → c.claimed = false → u.asked = asked
  polls : ∀ g d i, u.claimLoop = .polling g d i → g = u.generation ∧ u.asked = waited

/-- The claim loop is neither at a claim nor at a wait for nudges. -/
def ClaimLoop.aside : ClaimLoop → Bool
  | .claiming _ | .polling .. => false
  | _ => true

theorem Placed.idle (aside : u.claimLoop.aside = true) : Placed w asked waited u where
  room := fun c here => by rw [here] at aside; cases aside
  asks := fun c here => by rw [here] at aside; cases aside
  polls := fun g d i here => by rw [here] at aside; cases aside

theorem Placed.polling {g : ℕ} {d : ℚ} {i : Bool} (loop : u.claimLoop = .polling g d i) (seen : g = u.generation)
    (asks : u.asked = waited) : Placed w asked waited u where
  room := fun c here => by cases here.symm.trans loop
  asks := fun c here => by cases here.symm.trans loop
  polls := fun g' d' i' here => by
    cases here.symm.trans loop
    exact ⟨seen, asks⟩

theorem Placed.claiming (loop : u.claimLoop = .claiming c) (room : c.batch ≤ u.supervisor.availableSlots w)
    (asks : c.claimed = false → u.asked = asked) : Placed w asked waited u where
  room := fun c' here => by cases here.symm.trans loop; exact room
  asks := fun c' here => by cases here.symm.trans loop; exact asks
  polls := fun g d i here => by cases here.symm.trans loop

theorem Service.nextClaim_spec (o : ServiceOptions) (w : Options) (now : ℚ) (claimed : Bool) (rest : ℕ) (s : Service) :
    (s.nextClaim o w now claimed rest).1.asked = s.asked ∧
      ∀ c, (s.nextClaim o w now claimed rest).2 = some c →
        c.claimed = claimed ∧ c.batch ≤ (s.nextClaim o w now claimed rest).1.supervisor.availableSlots w := by
  induction rest generalizing s with
  | zero => exact ⟨rfl, fun c none => nomatch none⟩
  | succ rest ih =>
    unfold nextClaim
    dsimp only
    split_ifs
    · exact ⟨rfl, fun c none => nomatch none⟩
    · exact ⟨(ih _).1, (ih _).2⟩
    · refine ⟨rfl, fun c same => ?_⟩
      cases same
      exact ⟨rfl, min_le_right _ _⟩

theorem Service.waitForPollOrNudge_placed (asks : s.asked = waited) :
    Placed w asked waited (s.waitForPollOrNudge o now draws) := by
  unfold waitForPollOrNudge
  dsimp only
  split_ifs <;> exact .polling rfl rfl asks

theorem Service.unclaimed_placed {swept : Bool} (asks : s.asked = waited) :
    Placed w asked waited (s.unclaimed o now draws swept) := by
  unfold unclaimed
  dsimp only
  split_ifs <;> exact waitForPollOrNudge_placed asks

theorem Service.sweep_placed : Placed w (some (s.sweep o w now draws).generation) none (s.sweep o w now draws) := by
  have spec := nextClaim_spec o w now false o.queues.length s
  unfold sweep
  split
  · rename_i s' c found
    rw [found] at spec
    exact .claiming rfl (spec.2 c rfl).2 fun _ => rfl
  · exact unclaimed_placed rfl

theorem Service.beginLoop_placed :
    Placed w (some (s.beginLoop o w now draws).generation) none (s.beginLoop o w now draws) := by
  unfold beginLoop
  split_ifs
  · exact .idle rfl
  · exact .idle rfl
  · exact sweep_placed

/-- A sweep that has claimed nothing goes on with the nudges that it had seen at its first claim. -/
theorem Service.resumeSweep_placed (none : c.claimed = false) :
    Placed w s.asked s.asked (s.resumeSweep o w now draws c) := by
  have spec := nextClaim_spec o w now c.claimed c.rest s
  unfold resumeSweep
  split
  · rename_i s' c' found
    rw [found] at spec
    exact .claiming rfl (spec.2 c' rfl).2 fun _ => spec.1
  · rename_i s' found
    rw [found] at spec
    rw [if_neg (by simp [none])]
    exact unclaimed_placed spec.1

theorem Service.resumeSweep_placed_claimed (some' : c.claimed = true) :
    Placed w (some (s.resumeSweep o w now draws c).generation) none (s.resumeSweep o w now draws c) := by
  have spec := nextClaim_spec o w now c.claimed c.rest s
  unfold resumeSweep
  split
  · rename_i s' c' found
    rw [found] at spec
    refine .claiming rfl (spec.2 c' rfl).2 fun unclaimed => ?_
    exact nomatch unclaimed.symm.trans ((spec.2 c' rfl).1.trans some')
  · rw [if_pos some']
    dsimp only
    split_ifs
    · exact beginLoop_placed
    · exact waitForPollOrNudge_placed rfl

end Placed

section Runs

/-- A service that has been constructed. -/
def Service.constructed (o : ServiceOptions) : Service := { batchTarget := if o.adaptiveBatch then 1 else o.batch }

/-- Any number of steps of a service, each of them allowed where it is taken. -/
inductive Service.Run (o : ServiceOptions) (w : Options) (allowed : Service → ServiceEvent → Prop) (s : Service) :
    Service → Prop
  | start : Service.Run o w allowed s s
  | step {t u : Service} {event : ServiceEvent} {now : ℚ} {draws : Draws} (run : Service.Run o w allowed s t)
      (permitted : allowed t event) (step : t.step o w now draws event = some u) : Service.Run o w allowed s u

variable {allowed : Service → ServiceEvent → Prop}

/-- What holds at the start and every allowed step keeps holds in every state of a run. -/
theorem Service.Run.induction {I : Service → Prop} (run : Service.Run o w allowed s u) (initial : I s)
    (step : ∀ {t u event now draws}, I t → allowed t event → Service.step o w now draws event t = some u → I u) :
    I u := by
  induction run with
  | start => exact initial
  | step _ permitted taken ih => exact step ih permitted taken

theorem Service.Run.mono {allowed' : Service → ServiceEvent → Prop} (run : Service.Run o w allowed s u)
    (wider : ∀ t event, allowed t event → allowed' t event) : Service.Run o w allowed' s u := by
  induction run with
  | start => exact .start
  | step _ permitted taken ih => exact .step ih (wider _ _ permitted) taken

/-- A series of events at times, all draws being zero. -/
def Service.plays (o : ServiceOptions) (w : Options) : List (ℚ × ServiceEvent) → Service → Option Service
  | [], s => some s
  | (now, event) :: rest, s => (s.step o w now ⟨0, 0⟩ event).bind (Service.plays o w rest)

theorem Service.Run.plays {events : List (ℚ × ServiceEvent)} (run : Service.Run o w allowed s t)
    (permitted : ∀ t event, (∃ now, (now, event) ∈ events) → allowed t event)
    (played : t.plays o w events = some u) : Service.Run o w allowed s u := by
  induction events generalizing t with
  | nil =>
    cases played
    exact run
  | cons event rest ih =>
    obtain ⟨next, step, played⟩ := Option.bind_eq_some_iff.mp played
    refine ih (.step run (permitted _ _ ⟨event.1, by simp⟩) step) (fun t event member => ?_) played
    obtain ⟨now, member⟩ := member
    exact permitted t event ⟨now, by simp [member]⟩

end Runs

section Tasks

variable {P : JobTask → Prop} {sup sup' : Supervisor}

/-- All jobs of the supervisor have tasks with a property. -/
def Supervisor.Each (P : JobTask → Prop) (s : Supervisor) : Prop := ∀ e ∈ s.jobs, P e.task

/-- A property of tasks that the supervisor's stop does not touch. -/
structure Steady (P : JobTask → Prop) : Prop where
  soft : ∀ t, P t → P (t.withControl (·.cancel .shutdown))
  hard : ∀ t, P t → P t.enforceShutdownDeadline

theorem Supervisor.Each.withTasks {f : JobTask → JobTask} (each : sup.Each P) (keeps : ∀ t, P t → P (f t)) :
    (sup.withTasks f).Each P := by
  intro e member
  obtain ⟨e', there, rfl⟩ := List.mem_map.mp member
  exact keeps _ (each e' there)

theorem Supervisor.Each.stop (steady : Steady P) (each : sup.Each P) (cancel : Bool) : (sup.stop cancel).Each P := by
  have soft : sup.beginSoftStop.Each P := each.withTasks steady.soft
  cases cancel with
  | false => exact soft
  | true => exact soft.withTasks steady.hard

theorem Supervisor.Each.submit {claim : ClaimedJob} (each : sup.Each P)
    (fresh : P (.submitted claim.jobId claim.leaseSeconds)) (taken : sup.submit w claim = some sup') :
    sup'.Each P := by
  unfold Supervisor.submit at taken
  split_ifs at taken
  cases taken
  intro e member
  obtain member | last := List.mem_append.mp member
  · exact each e member
  · cases List.mem_singleton.mp last
    exact fresh

theorem Supervisor.Each.submitAll {claims : List ClaimedJob} (each : sup.Each P)
    (fresh : ∀ claim ∈ claims, P (.submitted claim.jobId claim.leaseSeconds)) :
    (sup.submitAll w claims).1.Each P := by
  induction claims generalizing sup with
  | nil => exact each
  | cons claim claims ih =>
    unfold Supervisor.submitAll
    cases taken : sup.submit w claim with
    | none => exact each
    | some next =>
      exact ih (each.submit (fresh claim (by simp)) taken) fun later member => fresh later (by simp [member])

theorem Supervisor.Each.act (steady : Steady P) (each : sup.Each P) {i : ℕ} {event : JobEvent}
    (keeps : ∀ e t, sup.jobs[i]? = some e → P e.task →
      e.task.step w sup.stopping sup.deadlineReached now event = some t → P t)
    (acted : sup.act w now i event = some sup') : sup'.Each P := by
  unfold Supervisor.act at acted
  split at acted
  · cases acted
  · rename_i e there
    obtain ⟨t, step, rfl⟩ := Option.map_eq_some_iff.mp acted
    have placed : Supervisor.Each P { sup with jobs := sup.jobs.set i { e with task := t } } := by
      intro e' member
      obtain member | rfl := List.mem_or_eq_of_mem_set member
      · exact each e' member
      · exact keeps e t there (each e (List.mem_of_getElem? there)) step
    have soft := placed.withTasks steady.soft
    dsimp only
    split_ifs
    · exact soft
    · exact placed
    · exact soft
    · exact placed

end Tasks

section Supervision

/-- What a step of the service does to its supervisor, and to the record of the jobs it received. -/
inductive Supervises (w : Options) (now : ℚ) (s : Service) (event : ServiceEvent) (u : Service) : Prop
  | same (supervisor : u.supervisor = s.supervisor) (received : u.received = s.received)
  | opens (idle : s.supervisor.stopping = false) (supervisor : u.supervisor = { s.supervisor with accepting := true })
      (received : u.received = s.received)
  /-- A claim response is too long. -/
  | drops (c : Claiming) (jobs : List ClaimedJob) (loop : s.claimLoop = .claiming c)
      (claimed : event = .answered (.claimed jobs)) (long : c.batch < jobs.length)
      (supervisor : u.supervisor = s.supervisor) (received : u.received = s.received ++ jobs.map ClaimedJob.key)
  | takes (c : Claiming) (jobs : List ClaimedJob) (loop : s.claimLoop = .claiming c)
      (claimed : event = .answered (.claimed jobs)) (supervisor : u.supervisor = (s.supervisor.submitAll w jobs).1)
      (room : ∀ c', u.claimLoop = .claiming c' → c'.batch ≤ u.supervisor.availableSlots w)
      (received : u.received = s.received ++ jobs.map ClaimedJob.key)
  | acts (i : ℕ) (jobEvent : JobEvent) (job : event = .job i jobEvent) (free : jobEvent.free = true)
      (acted : s.supervisor.act w now i jobEvent = some u.supervisor) (received : u.received = s.received)
  | observes (i : ℕ) (e : Supervising) (there : s.supervisor.jobs[i]? = some e)
      (supervisor : u.supervisor = { s.supervisor with jobs := s.supervisor.jobs.set i { e with observed := true } })
      (received : u.received = s.received)
  | stops (cancel : Bool) (supervisor : u.supervisor = s.supervisor.stop cancel) (received : u.received = s.received)
  | deadline (supervisor : u.supervisor = s.supervisor.enforceAllShutdownDeadlines) (received : u.received = s.received)
  | stopped (supervisor : u.supervisor = { s.supervisor with stopped := true }) (received : u.received = s.received)

theorem Service.refreshRunningState_same : (s.refreshRunningState o).supervisor = s.supervisor ∧
    (s.refreshRunningState o).received = s.received := by
  unfold refreshRunningState
  split <;> exact ⟨rfl, rfl⟩

theorem Service.noteClaimError_same {queue : String} {code : TqCode} :
    (s.noteClaimError o now draws queue code).supervisor = s.supervisor ∧
      (s.noteClaimError o now draws queue code).received = s.received := by
  unfold noteClaimError
  dsimp only
  generalize (if code = .unavailable then o.unavailableFatalThreshold else some o.claimFatalThreshold) = threshold
  split_ifs <;> exact ⟨rfl, rfl⟩

theorem Service.claimAnswered_supervises {result : ClaimResult} (loop : s.claimLoop = .claiming c) :
    Supervises w now s (.answered result) (s.claimAnswered o w now draws c result) := by
  unfold claimAnswered
  cases result with
  | claimed jobs =>
    dsimp only
    split_ifs with long
    · exact .drops c jobs loop rfl long rfl rfl
    · exact .takes c jobs loop rfl (resumeSweep_loops.supervisor.trans (observeClaimResult_loops _ _).supervisor)
        (resumeSweep_placed_claimed rfl).room (resumeSweep_loops.received.trans (observeClaimResult_loops _ _).received)
    · exact .takes c jobs loop rfl rfl (fun c' same => nomatch same) rfl
  | empty =>
    exact .same (resumeSweep_loops.supervisor.trans (observeClaimResult_loops _ _).supervisor)
      (resumeSweep_loops.received.trans (observeClaimResult_loops _ _).received)
  | throttled => exact .same resumeSweep_loops.supervisor resumeSweep_loops.received
  | paused =>
    exact .same (resumeSweep_loops.supervisor.trans (observeClaimResult_loops _ _).supervisor)
      (resumeSweep_loops.received.trans (observeClaimResult_loops _ _).received)
  | unknownQueue => exact .same rfl rfl
  | unavailable => exact .same rfl rfl

theorem Service.observeJob_same {ended : TaskEnd} : (s.observeJob ended).supervisor = s.supervisor ∧
    (s.observeJob ended).received = s.received := by
  unfold observeJob
  split
  · exact ⟨rfl, rfl⟩
  · exact ⟨rfl, rfl⟩
  · unfold observeReport
    split_ifs
    · split <;> exact ⟨rfl, rfl⟩
    · exact ⟨rfl, rfl⟩
    · exact ⟨rfl, rfl⟩

theorem Service.stopOn_supervises {event : ServiceEvent} (run : s.stopOn o = some u) : Supervises w now s event u := by
  unfold stopOn at run
  dsimp only at run
  split at run
  · split at run
    · cases run
      exact .stops _ rfl rfl
    · cases run
      exact .same rfl rfl
  · split at run
    · cases run
      exact .stops _ rfl rfl
    · cases run
  · split_ifs at run
    cases run
    exact .same rfl rfl
  · cases run
  · cases run

theorem Loops.supervises {event : ServiceEvent} (loops : Loops s u) : Supervises w now s event u :=
  .same loops.supervisor loops.received

theorem Service.step_supervises {event : ServiceEvent} (run : s.step o w now draws event = some u) :
    Supervises w now s event u := by
  cases event with
  | start =>
    simp only [step] at run
    split_ifs at run
    cases run
    exact .same rfl rfl
  | presence healthy shutdown =>
    have written := refreshRunningState_same (o := o) (s := { s with presenceHealthy := healthy })
    simp only [step] at run
    generalize { s with presenceHealthy := healthy }.refreshRunningState o = after at run written
    obtain ⟨supervisor, received⟩ := written
    split at run
    · cases run
      unfold started
      dsimp only
      split_ifs with shut stopping
      · exact .same supervisor received
      · exact .same supervisor received
      · rw [supervisor] at stopping
        exact .opens (by simp_all) (by rw [supervisor]) received
      · rw [supervisor] at stopping
        exact .opens (by simp_all) (refreshRunningState_same.1.trans (by rw [supervisor]))
          (refreshRunningState_same.2.trans received)
    · cases run
      split_ifs
      · exact .same supervisor received
      · exact .same supervisor received
    · cases run
    · cases run
  | listener connected =>
    have heard := refreshRunningState_same (o := o) (s := if connected then
      { s with listenerAttempted := true, listenerConnected := connected }.nudge
      else { s with listenerAttempted := true, listenerConnected := connected })
    simp only [step] at run
    generalize (if connected then { s with listenerAttempted := true, listenerConnected := connected }.nudge
      else { s with listenerAttempted := true, listenerConnected := connected } : Service).refreshRunningState o = after
      at run heard
    have supervisor : after.supervisor = s.supervisor := heard.1.trans (by split_ifs <;> rfl)
    have received : after.received = s.received := heard.2.trans (by split_ifs <;> rfl)
    split at run
    · cases run
      exact .same supervisor received
    · cases run
      exact .same supervisor received
    · cases run
    · cases run
  | claims =>
    simp only [step] at run
    split at run
    · cases run
      exact beginLoop_loops.supervises
    · cases run
  | capacity =>
    simp only [step] at run
    split at run
    · split_ifs at run
      · cases run
        exact .same rfl rfl
      · cases run
        exact sweep_loops.supervises
    · cases run
  | answered result =>
    simp only [step] at run
    split at run
    · rename_i c loop
      cases run
      exact claimAnswered_supervises loop
    · cases run
  | refused code =>
    simp only [step] at run
    split at run
    · cases run
      exact .same (resumeSweep_loops.supervisor.trans noteClaimError_same.1)
        (resumeSweep_loops.received.trans noteClaimError_same.2)
    · cases run
  | broken =>
    simp only [step] at run
    split at run
    · cases run
      exact .same rfl rfl
    · cases run
  | polled reason =>
    simp only [step] at run
    split at run
    · split_ifs at run
      cases run
      exact polled_loops.supervises
    · cases run
  | rested =>
    simp only [step] at run
    split at run
    · split_ifs at run
      cases run
      exact .same beginLoop_loops.supervisor beginLoop_loops.received
    · cases run
  | nudge =>
    cases run
    exact .same rfl rfl
  | job i event =>
    simp only [step] at run
    split_ifs at run with free
    obtain ⟨supervisor, acted, rfl⟩ := Option.map_eq_some_iff.mp run
    exact .acts i event rfl free acted rfl
  | observe i =>
    simp only [step] at run
    split at run
    · rename_i e there
      split at run
      · split_ifs at run
        cases run
        exact .observes i e there observeJob_same.1 observeJob_same.2
      · cases run
    · cases run
  | stop cancel =>
    simp only [step] at run
    split_ifs at run
    · cases run
      exact .same rfl rfl
    · cases run
      exact .stops true rfl rfl
    · cases run
      exact .same rfl rfl
  | stopping => exact stopOn_supervises run
  | deadline =>
    simp only [step] at run
    split_ifs at run
    cases run
    exact .deadline rfl rfl
  | stopped =>
    simp only [step] at run
    split_ifs at run
    cases run
    exact .stopped rfl rfl

/-- A property that new tasks have, that the stop of the supervisor keeps and that the job's step keeps, holds of all
tasks after a step. -/
theorem Service.step_each {P : JobTask → Prop} {event : ServiceEvent} (steady : Steady P)
    (fresh : ∀ jobId leaseSeconds, P (.submitted jobId leaseSeconds)) (each : s.supervisor.Each P)
    (keeps : ∀ i jobEvent e t, event = .job i jobEvent → s.supervisor.jobs[i]? = some e → P e.task →
      e.task.step w s.supervisor.stopping s.supervisor.deadlineReached now jobEvent = some t → P t)
    (run : s.step o w now draws event = some u) : u.supervisor.Each P := by
  cases step_supervises run with
  | same supervisor | drops _ _ _ _ _ supervisor => exact supervisor ▸ each
  | opens idle supervisor =>
    rw [supervisor]
    exact each
  | takes c jobs loop claimed supervisor =>
    rw [supervisor]
    exact each.submitAll fun claim _ => fresh _ _
  | acts i jobEvent job free acted => exact each.act steady (fun e t => keeps i jobEvent e t job) acted
  | observes i e there supervisor =>
    rw [supervisor]
    intro e' member
    obtain member | rfl := List.mem_or_eq_of_mem_set member
    · exact each e' member
    · exact each e (List.mem_of_getElem? there)
  | stops cancel supervisor => exact supervisor ▸ each.stop steady cancel
  | deadline supervisor => exact supervisor ▸ each.withTasks steady.hard
  | stopped supervisor =>
    rw [supervisor]
    exact each

end Supervision

end Worker
end Taskq
