import Taskq.Worker.Turns

/-! The jobs that the worker service receives: each is taken over by the supervisor, and its task does not end before a
verb was called for it or the server denied its ownership. -/
namespace Taskq
namespace Worker

section Task

variable {o : Options} {t t' : JobTask} {s : Settling} {c : RunControl} {stopping deadlineReached : Bool} {now : ℚ}
  {event : JobEvent} {r : JobRunReport} {fault : Fault} {ended : HandlerEnd}

/-- A verb has been called for the attempt, or the server has denied its ownership. -/
def JobTask.vouched (t : JobTask) : Prop := t.sent ≠ [] ∨ t.disowned = true

/-- The task stands before its settlement, which is still to come. -/
def Stage.pending : Stage → Bool
  | .created | .cancelledEarly | .handling | .draining | .gracing _ => true
  | .settling s => decide (s.phase = .entering) && decide (s.purpose = .external)
  | _ => false

/-- What happens to a task without dropping its job: the heartbeat loop gives the job up on the server's word only, no
exception escapes from the start or from the end of the handler, and no cancellation meets the task where it is not
guarded, in the awaits of a cancelled handler or of the operator's grace, or before a release of its own. -/
def JobEvent.guarded (t : JobTask) : JobEvent → Prop
  | .lose confirmed _ => confirmed = true
  | .start preparation => preparation ≠ .raises
  | .handlerEnded ended => normalizeHandlerResult ended ≠ .raises
  | .cancel =>
    match t.stage with
    | .created => t.recovery = false
    | .draining | .gracing _ => False
    | _ => True
  | _ => True

/-- A task stands where its job is not dropped. -/
structure Lands (t : JobTask) : Prop where
  grace : ∀ ended, t.stage = .gracing ended → normalizeHandlerResult ended ≠ .raises
  /-- The release of a job whose task was cancelled early is not cancelled early itself. -/
  released : t.stage = .cancelledEarly → t.recovery = false
  vouched : t.vouched ∨ t.stage.pending = true

/-- The job of the task is not dropped. -/
structure Kept (t : JobTask) : Prop where
  orderly : Orderly t
  lost : lostBy t.control = true → t.disowned = true
  lands : Lands t

theorem JobTask.vouched.same (vouched : t.vouched) (same : Same t t') : t'.vouched := by
  obtain called | disowned := vouched
  · exact .inl fun empty => called (List.prefix_nil.mp (empty ▸ same.sent))
  · exact .inr (same.disowned.trans disowned)

theorem Lands.over {e : TaskEnd} (stage : t.stage = .closing e ∨ t.stage = .ended e) (vouched : t.vouched) :
    Lands t where
  grace := fun ended here => by obtain stage | stage := stage <;> cases here.symm.trans stage
  released := fun here => by obtain stage | stage := stage <;> cases here.symm.trans stage
  vouched := .inl vouched

theorem Lands.settling (stage : t.stage = .settling s) (vouched : t.vouched ∨ t.stage.pending = true) : Lands t where
  grace := fun ended here => by cases here.symm.trans stage
  released := fun here => by cases here.symm.trans stage
  vouched := vouched

theorem Lands.handling (stage : t.stage = .handling ∨ t.stage = .draining) : Lands t where
  grace := fun ended here => by obtain stage | stage := stage <;> cases here.symm.trans stage
  released := fun here => by obtain stage | stage := stage <;> cases here.symm.trans stage
  vouched := .inr (by obtain stage | stage := stage <;> rw [stage] <;> rfl)

theorem JobTask.settled_stage (t : JobTask) (s : Settling) (r : JobRunReport) :
    ∃ e, (t.settled s r).stage = .closing e ∨ (t.settled s r).stage = .ended e := by
  unfold JobTask.settled
  split
  · exact ⟨_, .inr rfl⟩
  · exact ⟨_, .inr rfl⟩
  · exact ⟨_, .inr rfl⟩
  · exact ⟨_, .inr rfl⟩
  · exact ⟨_, .inl rfl⟩
  · exact ⟨_, .inl rfl⟩
  · exact ⟨_, .inl rfl⟩

theorem JobTask.settled_lands (vouched : t.vouched) : Lands (t.settled s r) := by
  obtain ⟨e, stage⟩ := t.settled_stage s r
  exact .over stage (vouched.same settled_same)

theorem JobTask.finish_lands {e : TaskEnd} (vouched : t.vouched) : Lands (t.finish e) :=
  .over (.inr rfl) (vouched.same finish_same)

/-- A verb is called, unless the ownership is lost, which the server said. -/
theorem JobTask.attempt_lands (lost : lostBy t.control = true → t.disowned = true) : Lands (t.attempt s) := by
  unfold JobTask.attempt
  dsimp only
  split
  · rename_i c control
    split_ifs with flag
    · exact settled_lands (.inr (lost (by simp [lostBy, control, flag])))
    · exact .settling rfl (.inl (.inl (by simp)))
  · exact .settling rfl (.inl (.inl (by simp)))

theorem JobTask.settle_lands {purpose : Purpose} {intent : Option Intent} {reason : Option CancellationReason}
    {command : Verb} {fallback : Option Bool} (lost : lostBy t.control = true → t.disowned = true) :
    Lands (t.settle purpose intent reason command fallback now) := by
  unfold JobTask.settle
  dsimp only
  split_ifs with external
  · exact .settling rfl (.inr (by simp [Stage.pending, external]))
  · have same : Same t (t.withControl fun c => { c with settling := true }) := .withControl fun _ => rfl
    exact attempt_lands fun flag => lost (same.lost.symm.trans flag)

theorem resolveIntent_raises (calm : normalizeHandlerResult ended ≠ .raises) : resolveIntent c ended ≠ .raises := by
  unfold resolveIntent
  split
  · rename_i raises
    exact absurd raises calm
  · exact fun same => nomatch same
  · split_ifs
    · exact fun same => nomatch same
    · exact fun same => nomatch same
    · split <;> exact fun same => nomatch same

theorem JobTask.afterGrace_lands (control : t.control = some c) (lost : lostBy t.control = true → t.disowned = true)
    (calm : normalizeHandlerResult ended ≠ .raises) : Lands (t.afterGrace o c ended now) := by
  unfold JobTask.afterGrace JobTask.settleInvalidFollowup
  split_ifs with flag
  · have disowned := lost (by simp [lostBy, control, flag])
    exact ⟨fun ended here => (by cases here), fun here => (by cases here), .inl (.inr disowned)⟩
  · exact settle_lands lost
  · split
    · rename_i raises
      exact absurd raises (resolveIntent_raises calm)
    · exact settle_lands lost
    · exact settle_lands lost

theorem JobTask.afterHandler_lands (control : t.control = some c) (lost : lostBy t.control = true → t.disowned = true)
    (calm : normalizeHandlerResult ended ≠ .raises) : Lands (t.afterHandler o c ended now) := by
  unfold JobTask.afterHandler
  split_ifs
  · refine ⟨fun ended' here => ?_, fun here => (nomatch here), .inr rfl⟩
    cases here
    exact calm
  · exact afterGrace_lands control lost calm

theorem JobTask.cancelHandling_lands (control : t.control = some c)
    (lost : lostBy t.control = true → t.disowned = true) : Lands (t.cancelHandling o c now) := by
  unfold JobTask.cancelHandling
  dsimp only
  split_ifs
  · exact .handling (.inr rfl)
  · exact .handling (.inr rfl)
  · exact afterHandler_lands control lost fun same => nomatch same

theorem JobTask.start_lands (lost : lostBy t.control = true → t.disowned = true) {preparation : Preparation}
    (calm : preparation ≠ .raises) : Lands (t.start stopping deadlineReached now preparation) := by
  cases preparation with
  | unsupportedPolicy | noHandler | invalidPayload =>
    unfold JobTask.start
    exact settle_lands lost
  | raises => exact absurd rfl calm
  | ready isSync =>
    unfold JobTask.start
    dsimp only
    split_ifs <;> exact .handling (.inl rfl)

theorem JobTask.rejected_lands (lost : lostBy t.control = true → t.disowned = true) (vouched : t.vouched) :
    Lands (t.rejected s fault now) := by
  unfold JobTask.rejected JobTask.settleInvalidFollowup
  dsimp only
  split
  · exact settled_lands vouched
  · split
    · exact settle_lands lost
    · exact settled_lands vouched

theorem JobTask.answer_lands (lost : lostBy t.control = true → t.disowned = true) (vouched : t.vouched)
    (run : t.answer o stopping now s event = some t') : Lands t' := by
  unfold JobTask.answer at run
  split at run
  · cases run
    exact settled_lands vouched
  · split at run
    · cases run
      exact settled_lands vouched
    · cases run
      exact rejected_lands lost vouched
    · cases run
      exact .settling rfl (.inl vouched)
  · cases run

theorem JobTask.cancelled_lands (kept : Kept t) (guarded : JobEvent.guarded t .cancel)
    (run : t.cancelled o now = some t') : Lands t' := by
  have ended (stage : t.stage.pending = false) : t.vouched :=
    kept.lands.vouched.resolve_right (by simp [stage])
  unfold JobTask.cancelled at run
  unfold JobEvent.guarded at guarded
  split at run
  · rename_i stage
    simp only [stage] at guarded
    cases run
    exact ⟨fun ended here => (nomatch here), fun _ => guarded, .inr rfl⟩
  · obtain ⟨c, control, rfl⟩ := Option.map_eq_some_iff.mp run
    exact cancelHandling_lands control kept.lost
  · rename_i stage
    simp [stage] at guarded
  · rename_i stage
    simp [stage] at guarded
  · rename_i stage
    cases run
    exact finish_lands (ended (by rw [stage]; rfl))
  · rename_i stage
    cases run
    exact finish_lands (ended (by rw [stage]; rfl))
  · rename_i s stage
    split at run
    · cases run
      exact kept.lands
    · rename_i purpose
      cases run
      exact .over (.inl rfl) ((ended (by simp [stage, Stage.pending, purpose])).same close_same)
    · rename_i purpose
      cases run
      exact .over (.inl rfl) ((ended (by simp [stage, Stage.pending, purpose])).same close_same)
    · rename_i purpose _ _
      cases run
      exact finish_lands (ended (by simp [stage, Stage.pending]; exact fun _ => purpose))
  · cases run
  · cases run

theorem JobTask.resume_lands (kept : Kept t) (run : t.resume o now = some t') : Lands t' := by
  have ended (stage : t.stage.pending = false) : t.vouched :=
    kept.lands.vouched.resolve_right (by simp [stage])
  unfold JobTask.resume at run
  split at run
  · rename_i c stage control
    split_ifs at run
    cases run
    exact afterHandler_lands control kept.lost fun same => nomatch same
  · rename_i ended c stage control
    cases run
    exact afterGrace_lands control kept.lost (kept.lands.grace ended stage)
  · rename_i c stage control
    cases run
    exact finish_lands (ended (by rw [stage]; rfl))
  · rename_i e stage
    cases run
    exact finish_lands (ended (by rw [stage]; rfl))
  · split_ifs at run
    cases run
    exact attempt_lands kept.lost
  · cases run

/-- A change that leaves the stage, the calls and the ownership alone drops nothing. -/
theorem Lands.stay (lands : Lands t) (stage : t'.stage = t.stage) (recovery : t'.recovery = t.recovery)
    (vouched : t.vouched → t'.vouched) : Lands t' where
  grace := fun ended here => lands.grace ended (stage ▸ here)
  released := fun here => recovery.trans (lands.released (stage ▸ here))
  vouched := lands.vouched.imp vouched fun pending => stage ▸ pending

theorem Kept.step_lands (kept : Kept t) (guarded : event.guarded t)
    (run : t.step o stopping deadlineReached now event = some t') : Lands t' := by
  have bare := fun created => (kept.orderly.bare (.inl created)).1
  have ended (stage : t.stage.pending = false) : t.vouched :=
    kept.lands.vouched.resolve_right (by simp [stage])
  cases event with
  | start preparation =>
    simp only [JobTask.step] at run
    split at run
    · cases run
      split_ifs
      · exact JobTask.settle_lands kept.lost
      · exact JobTask.start_lands kept.lost guarded
    · cases run
  | recover =>
    simp only [JobTask.step] at run
    split at run
    · split_ifs at run
      cases run
      exact ⟨fun ended here => (by cases here), fun here => (by cases here), .inr rfl⟩
    · cases run
  | handlerEnded ended =>
    have marked : Same t { t with handlerDone := true } := ⟨rfl, rfl, rfl, List.prefix_rfl⟩
    simp only [JobTask.step] at run
    split at run
    · rename_i c origin control
      cases run
      split_ifs
      · exact JobTask.cancelHandling_lands control kept.lost
      · exact JobTask.afterHandler_lands control kept.lost guarded
    · cases run
    · cases run
    · cases run
    · cases run
      exact kept.lands.stay rfl rfl fun vouched => vouched.same marked
  | awaited => exact JobTask.resume_lands kept run
  | answered result =>
    simp only [JobTask.step] at run
    split at run
    · rename_i s origin
      split_ifs at run with calling
      exact JobTask.answer_lands kept.lost (ended (by simp [origin, Stage.pending, calling])) run
    · cases run
  | failed fault jitter =>
    simp only [JobTask.step] at run
    split at run
    · rename_i s origin
      split_ifs at run with calling
      exact JobTask.answer_lands kept.lost (ended (by simp [origin, Stage.pending, calling])) run
    · cases run
  | wake =>
    simp only [JobTask.step] at run
    split at run
    · split at run
      · cases run
        exact JobTask.attempt_lands kept.lost
      · cases run
    · cases run
  | cancel => exact JobTask.cancelled_lands kept guarded run
  | lose confirmed failed =>
    simp only [JobTask.step] at run
    split_ifs at run
    cases run
    refine kept.lands.stay rfl rfl fun _ => .inr ?_
    cases guarded
    simp
  | operatorCancel =>
    simp only [JobTask.step] at run
    split_ifs at run
    cases run
    exact kept.lands.stay rfl rfl id
  | graceExpired =>
    simp only [JobTask.step] at run
    split_ifs at run
    cases run
    exact kept.lands.stay rfl rfl id
  | blocking unfinished =>
    cases run
    exact kept.lands.stay rfl rfl id
  | softStop =>
    cases run
    exact kept.lands.stay rfl rfl id
  | deadline =>
    cases run
    exact kept.lands.stay rfl rfl id

/-- A guarded step drops no job. -/
theorem Kept.step (kept : Kept t) (guarded : event.guarded t)
    (run : t.step o stopping deadlineReached now event = some t') : Kept t' := by
  have bare := fun created => (kept.orderly.bare (.inl created)).1
  refine ⟨kept.orderly.step run, fun lost => ?_, kept.step_lands guarded run⟩
  by_cases loses : ∃ confirmed failed, event = .lose confirmed failed
  · obtain ⟨confirmed, failed, rfl⟩ := loses
    cases guarded
    simp only [JobTask.step] at run
    split_ifs at run
    cases run
    simp
  · have same := JobTask.step_same run (fun confirmed failed same => loses ⟨confirmed, failed, same⟩) bare
    exact same.disowned.trans (kept.lost (same.lost.symm.trans lost))

theorem Kept.submitted (jobId : Uuid) (leaseSeconds : ℤ) : Kept (.submitted jobId leaseSeconds) where
  orderly := .submitted jobId leaseSeconds
  lost := fun lost => nomatch lost
  lands := ⟨fun _ here => (nomatch here), fun _ => rfl, .inr rfl⟩

theorem steady_kept : Steady Kept where
  soft := fun t kept => by
    have told : t.step {} false false 0 .softStop = some (t.withControl (·.cancel .shutdown)) := rfl
    have guarded : JobEvent.guarded t .softStop := trivial
    exact kept.step guarded told
  hard := fun t kept => by
    have told : t.step {} false false 0 .deadline = some t.enforceShutdownDeadline := rfl
    have guarded : JobEvent.guarded t .deadline := trivial
    exact kept.step guarded told

end Task

section Slots

variable {w : Options} {now : ℚ} {sup sup' : Supervisor} {claim : ClaimedJob} {claims : List ClaimedJob}

/-- A task that is ended stays so. -/
theorem JobTask.step_ended {o : Options} {stopping deadlineReached : Bool} {event : JobEvent} {t t' : JobTask}
    {e : TaskEnd} (ended : t.stage = .ended e) (run : t.step o stopping deadlineReached now event = some t') :
    t'.stage = .ended e := by
  cases event <;> simp only [JobTask.step, JobTask.resume, JobTask.cancelled, ended] at run
  case handlerEnded ended =>
    cases control : t.control with
    | none => simp [control] at run
    | some c =>
      simp only [control, Option.some.injEq] at run
      cases run
      rfl
  case lose | operatorCancel | graceExpired =>
    split_ifs at run
    cases run
    exact ended
  case blocking =>
    cases run
    rfl
  case softStop | deadline =>
    cases run
    exact ended
  all_goals cases run

/-- The keys of the jobs that the supervisor has taken ended. -/
def Supervisor.keys (s : Supervisor) : List (Uuid × Uuid) := s.jobs.map (·.key)

/-- The same jobs are there, and they take no more slots. -/
structure Holds (s s' : Supervisor) : Prop where
  keys : s'.keys = s.keys
  slots : s'.activeSlots ≤ s.activeSlots

theorem Holds.trans {sup'' : Supervisor} (first : Holds sup sup') (second : Holds sup' sup'') : Holds sup sup'' :=
  ⟨second.keys.trans first.keys, second.slots.trans first.slots⟩

theorem Holds.of_jobs (jobs : sup'.jobs = sup.jobs) : Holds sup sup' := by
  refine ⟨?_, le_of_eq ?_⟩
  · rw [Supervisor.keys, jobs]
    rfl
  · rw [Supervisor.activeSlots, jobs]
    rfl

/-- A change of the tasks that keeps their stages leaves the slots alone. -/
theorem Holds.withTasks (f : JobTask → JobTask) (stage : ∀ t, (f t).stage = t.stage) :
    Holds sup (sup.withTasks f) := by
  refine ⟨?_, le_of_eq ?_⟩
  · simp [Supervisor.keys, Supervisor.withTasks, Function.comp_def]
  · unfold Supervisor.activeSlots Supervisor.withTasks
    rw [List.filter_map, List.length_map]
    congr 2
    funext e
    simp [Supervising.active, stage]

theorem Supervisor.beginSoftStop_holds : Holds sup sup.beginSoftStop :=
  .trans (.withTasks (·.withControl (·.cancel .shutdown)) fun _ => rfl) (.of_jobs rfl)

theorem Supervisor.enforceAllShutdownDeadlines_holds : Holds sup sup.enforceAllShutdownDeadlines :=
  .trans (.withTasks (·.enforceShutdownDeadline) fun _ => rfl) (.of_jobs rfl)

theorem Supervisor.stop_holds (cancel : Bool) : Holds sup (sup.stop cancel) := by
  have soft : Holds sup sup.beginSoftStop := beginSoftStop_holds
  cases cancel with
  | false => exact soft.trans (.of_jobs rfl)
  | true => exact (soft.trans enforceAllShutdownDeadlines_holds).trans (.of_jobs rfl)

/-- Another task is put at the place of a job; it takes no slot that the job had not taken. -/
theorem Holds.set {i : ℕ} {e e' : Supervising} (there : sup.jobs[i]? = some e) (same : e'.key = e.key)
    (less : e'.active = true → e.active = true) : Holds sup { sup with jobs := sup.jobs.set i e' } := by
  obtain ⟨short, rfl⟩ := List.getElem?_eq_some_iff.mp there
  constructor
  · unfold Supervisor.keys
    rw [List.map_set, same]
    exact (List.map_set (f := (·.key)) (a := sup.jobs[i])).symm.trans (by rw [List.set_getElem_self])
  · unfold Supervisor.activeSlots
    rw [← List.countP_eq_length_filter, ← List.countP_eq_length_filter, List.countP_set short]
    have counted : sup.jobs[i].active = true → 0 < sup.jobs.countP (·.active) :=
      fun active => List.countP_pos_iff.mpr ⟨_, List.getElem_mem short, active⟩
    split_ifs <;> grind

theorem Supervisor.act_holds {i : ℕ} {event : JobEvent} (acted : sup.act w now i event = some sup') :
    Holds sup sup' := by
  unfold act at acted
  split at acted
  · cases acted
  · rename_i e there
    obtain ⟨t, step, rfl⟩ := Option.map_eq_some_iff.mp acted
    have placed : Holds sup { sup with jobs := sup.jobs.set i { e with task := t } } := by
      refine .set there rfl fun active => ?_
      by_contra ended
      unfold Supervising.active Stage.isEnded at active ended
      cases stage : e.task.stage with
      | ended ended => simp [JobTask.step_ended stage step] at active
      | _ => simp [stage] at ended
    have soft := placed.trans beginSoftStop_holds
    dsimp only
    split_ifs
    · exact soft.trans (.of_jobs rfl)
    · exact placed.trans (.of_jobs rfl)
    · exact soft
    · exact placed

/-- A claim of attempts that are not run, for which there is room, is taken over whole. -/
theorem Supervisor.submitAll_taken (accepting : sup.accepting = true) (room : claims.length ≤ sup.freeSlots w)
    (distinct : (claims.map ClaimedJob.key).Nodup)
    (new : ∀ e ∈ sup.jobs, e.active = true → e.key ∉ claims.map ClaimedJob.key) :
    (sup.submitAll w claims).1.keys = sup.keys ++ claims.map ClaimedJob.key := by
  induction claims generalizing sup with
  | nil => simp [submitAll]
  | cons claim rest ih =>
    obtain ⟨unlike, distinct⟩ := List.nodup_cons.mp distinct
    have idle : ¬(sup.jobs.any fun e => e.active && decide (e.key = claim.key)) = true := by
      intro taken
      obtain ⟨e, member, both⟩ := List.any_eq_true.mp taken
      simp only [Bool.and_eq_true, decide_eq_true_eq] at both
      exact new e member both.1 (by simp [both.2])
    have free : sup.freeSlots w ≠ 0 := by
      intro full
      simp [full] at room
    have taken : sup.submit w claim = some { sup with
        jobs := sup.jobs ++ [⟨claim.key, .submitted claim.jobId claim.leaseSeconds, false⟩] } := by
      unfold submit
      rw [if_neg (by simp [accepting]), if_neg idle, if_neg free]
    rw [submitAll, taken]
    dsimp only
    refine Eq.trans (ih ?_ ?_ distinct ?_) ?_
    · exact accepting
    · unfold freeSlots activeSlots at room ⊢
      simp only [List.filter_append, List.length_append, List.length_cons] at room ⊢
      have one : ([(⟨claim.key, .submitted claim.jobId claim.leaseSeconds, false⟩ : Supervising)].filter
        (·.active)).length = 1 := rfl
      omega
    · intro e member active here
      obtain member | last := List.mem_append.mp member
      · exact new e member active (by simp [here])
      · cases List.mem_singleton.mp last
        exact unlike here
    · simp [keys]

end Slots

section Service

variable {o : ServiceOptions} {w : Options} {now : ℚ} {draws : Draws} {s u : Service} {event : ServiceEvent}

/-- A step that leaves no job to itself: jobs come to a supervisor that takes jobs, as many as were asked for and of
attempts that are not being run; and the tasks are guarded. -/
def attended (s : Service) : ServiceEvent → Prop
  | .answered (.claimed jobs) => ∀ c, s.claimLoop = .claiming c →
    s.supervisor.accepting = true ∧ jobs.length ≤ c.batch ∧ (jobs.map ClaimedJob.key).Nodup ∧
      ∀ e ∈ s.supervisor.jobs, e.active = true → e.key ∉ jobs.map ClaimedJob.key
  | .job i event => ∀ e, s.supervisor.jobs[i]? = some e → event.guarded e.task
  | _ => True

/-- The jobs received so far are in the hands of the supervisor, with room for those of the claim in flight. -/
structure Attending (w : Options) (s : Service) : Prop where
  each : s.supervisor.Each Kept
  room : ∀ c, s.claimLoop = .claiming c → c.batch ≤ s.supervisor.freeSlots w
  held : ∀ key ∈ s.received, key ∈ s.supervisor.keys

theorem Supervisor.availableSlots_le (s : Supervisor) : s.availableSlots w ≤ s.freeSlots w := by
  unfold availableSlots
  split_ifs
  · exact le_rfl
  · exact Nat.zero_le _

theorem Attending.step (attending : Attending w s) (permitted : attended s event)
    (run : s.step o w now draws event = some u) : Attending w u := by
  have each : u.supervisor.Each Kept :=
    Service.step_each steady_kept .submitted attending.each
      (fun i jobEvent e t job there kept step => by subst job; exact kept.step (permitted e there) step) run
  have holding (holds : Holds s.supervisor u.supervisor) (received : u.received = s.received) : Attending w u := by
    refine ⟨each, fun c claiming => ?_, fun key member => ?_⟩
    · cases Service.step_turns run with
      | stays loop =>
        have fewer := holds.slots
        have before := attending.room c (loop.symm.trans claiming)
        unfold Supervisor.freeSlots at before ⊢
        omega
      | goes asked waited fresh nudged stops placed =>
        exact (placed.room c claiming).trans u.supervisor.availableSlots_le
    · rw [holds.keys]
      exact attending.held key (received ▸ member)
  cases Service.step_supervises run with
  | same supervisor received => exact holding (.of_jobs (by rw [supervisor])) received
  | opens idle supervisor received => exact holding (.of_jobs (by rw [supervisor])) received
  | drops c jobs loop claimed long =>
    subst claimed
    exact absurd (permitted c loop).2.1 (by omega)
  | takes c jobs loop claimed supervisor room received =>
    subst claimed
    obtain ⟨accepting, within, distinct, new⟩ := permitted c loop
    have taken := Supervisor.submitAll_taken accepting (within.trans (attending.room c loop)) distinct new
    refine ⟨each, fun c' claiming => (room c' claiming).trans u.supervisor.availableSlots_le, fun key member => ?_⟩
    rw [supervisor, taken]
    rw [received] at member
    obtain before | here := List.mem_append.mp member
    · exact List.mem_append_left _ (attending.held key before)
    · exact List.mem_append_right _ here
  | acts i jobEvent job free acted received => exact holding (Supervisor.act_holds acted) received
  | observes i e there supervisor received =>
    refine holding ?_ received
    rw [supervisor]
    exact .set there rfl id
  | stops cancel supervisor received => exact holding (supervisor ▸ Supervisor.stop_holds cancel) received
  | deadline supervisor received =>
    exact holding (supervisor ▸ Supervisor.enforceAllShutdownDeadlines_holds) received
  | stopped supervisor received => exact holding (.of_jobs (by rw [supervisor])) received

end Service

section Witnesses

end Witnesses

end Worker
end Taskq
