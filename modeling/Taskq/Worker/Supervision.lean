import Taskq.Worker.JobTask

/-! What one step of a job's supervision can do to the calls of the settlement verbs. -/
namespace Taskq
namespace Worker

variable {o : Options} {t t' : JobTask} {s : Settling} {c : RunControl} {stopping deadlineReached : Bool} {now : ℚ}
  {event : JobEvent} {r : JobRunReport} {fault : Fault} {ended : HandlerEnd}

section Reports

theorem reportFromSettle_settled {jobId : Uuid} {command : Verb} {result : SettleOutcome} :
    (reportFromSettle jobId command result).state = .settled ↔ result ≠ .lost ∧ result ≠ .settleConflict := by
  cases result <;> simp [reportFromSettle]

theorem ownershipLostReport_state (jobId : Uuid) (c : RunControl) : (ownershipLostReport jobId c).state ≠ .settled := by
  cases failed : c.runtimeFailed <;> cases sync : c.abandonedSync <;> simp [ownershipLostReport, failed, sync]

theorem Settling.conclude_state (settled : (s.conclude r).state = .settled) : r.state = .settled := by
  by_contra unsettled
  unfold Settling.conclude at settled
  dsimp only at settled
  cases fallback : s.fallback with
  | none =>
    rw [fallback] at settled
    split_ifs at settled <;> exact unsettled settled
  | some skew =>
    rw [fallback] at settled
    simp only [if_neg unsettled] at settled
    split_ifs at settled <;> exact unsettled settled

/-- The errors of a verb never end in a settled report. -/
theorem Attempting.retry_state {jobId : Uuid} {control : Option RunControl} {a : Attempting} {code : String}
    {retryAfter jitter : ℚ} {backpressure availability : Bool}
    (gave : a.retry o jobId control stopping code retryAfter backpressure availability now jitter = .report r) :
    r.state ≠ .settled := by
  unfold Attempting.retry at gave
  dsimp only at gave
  generalize (if backpressure = true then _ else _ : Bool) = allowed at gave
  cases allowed with
  | true =>
    rw [if_pos rfl] at gave
    generalize (backpressure && decide (o.settleBackpressureMaxElapsed < _)) = exceeds at gave
    cases exceeds <;> cases gave
    simp [settlementUnknown]
  | false =>
    rw [if_neg (by simp)] at gave
    cases control with
    | none =>
      cases gave
      simp [settlementUnknown]
    | some c =>
      cases gave
      split_ifs
      · exact ownershipLostReport_state _ _
      · simp [settlementUnknown]

theorem Attempting.retry_command {jobId : Uuid} {control : Option RunControl} {a next : Attempting} {code : String}
    {retryAfter jitter delay : ℚ} {backpressure availability wake : Bool}
    (slept : a.retry o jobId control stopping code retryAfter backpressure availability now jitter =
      .sleep delay wake next) : next.command = a.command := by
  unfold Attempting.retry at slept
  dsimp only at slept
  generalize (if backpressure = true then _ else _ : Bool) = allowed at slept
  cases allowed with
  | true =>
    rw [if_pos rfl] at slept
    generalize (backpressure && decide (o.settleBackpressureMaxElapsed < _)) = exceeds at slept
    cases exceeds <;> cases slept
    rfl
  | false =>
    rw [if_neg (by simp)] at slept
    cases control <;> cases slept

theorem Attempting.raised_state {jobId : Uuid} {control : Option RunControl} {a : Attempting} {jitter : ℚ}
    (gave : a.raised o jobId control stopping fault now jitter = .report r) : r.state ≠ .settled := by
  unfold Attempting.raised at gave
  split at gave
  · cases gave
  · cases gave
  · split_ifs at gave
    cases gave
    simp [runtimeFailure]
  · split_ifs at gave
    · exact Attempting.retry_state gave
    · cases gave
      simp [runtimeFailure]
  · exact Attempting.retry_state gave
  · exact Attempting.retry_state gave
  · cases gave
    simp [runtimeFailure]

theorem Attempting.raised_command {jobId : Uuid} {control : Option RunControl} {a next : Attempting}
    {jitter delay : ℚ} {wake : Bool}
    (slept : a.raised o jobId control stopping fault now jitter = .sleep delay wake next) :
    next.command = a.command := by
  unfold Attempting.raised at slept
  split at slept
  · cases slept
  · cases slept
  · split_ifs at slept
  · split_ifs at slept
    exact Attempting.retry_command slept
  · exact Attempting.retry_command slept
  · exact Attempting.retry_command slept
  · cases slept

/-- A report that a supervision may give: that of a settled attempt says how it was settled and stops nothing; a fatal
one tells an outcome of the settlement, unless the runtime failed or the settlement is unknown. -/
structure Coherent (r : JobRunReport) : Prop where
  told : r.state = .settled → r.settlementOutcome.isSome = true
  calm : r.state = .settled → r.fatal = false
  fatal : r.fatal = true → (r.settlementOutcome = none ↔ r.outcome = .runtimeError ∨ r.outcome = .settlementUnknown)

theorem coherent_runtimeFailure (jobId : Uuid) (command : Verb) : Coherent (runtimeFailure jobId command) :=
  ⟨(nomatch ·), (nomatch ·), fun _ => by simp [runtimeFailure]⟩

theorem coherent_settlementUnknown (jobId : Uuid) (command : Verb) (code : Option String) :
    Coherent (settlementUnknown jobId command code) :=
  ⟨(nomatch ·), (nomatch ·), fun _ => by simp [settlementUnknown]⟩

theorem coherent_reportFromSettle (jobId : Uuid) (command : Verb) (result : SettleOutcome) :
    Coherent (reportFromSettle jobId command result) := by
  cases result <;> exact ⟨by simp [reportFromSettle], by simp [reportFromSettle], by simp [reportFromSettle]⟩

theorem coherent_ownershipLostReport (jobId : Uuid) (c : RunControl) : Coherent (ownershipLostReport jobId c) := by
  refine ⟨fun settled => absurd settled (ownershipLostReport_state _ _),
    fun settled => absurd settled (ownershipLostReport_state _ _), fun fatal => ?_⟩
  cases failed : c.runtimeFailed <;> simp [ownershipLostReport, failed] at fatal ⊢

theorem Coherent.reason (coherent : Coherent r) (reason : Option CancellationReason) :
    Coherent { r with cancellationReason := reason } := ⟨coherent.told, coherent.calm, coherent.fatal⟩

/-- A settled report may name another outcome. -/
theorem Coherent.rename (coherent : Coherent r) (settled : r.state = .settled) (outcome : JobRunOutcome) :
    Coherent { r with outcome := outcome } :=
  ⟨coherent.told, coherent.calm, fun fatal => nomatch fatal.symm.trans (coherent.calm settled)⟩

theorem Coherent.followup (coherent : Coherent r) (settled : r.state = .settled) (jobId : Uuid) (skew : Bool) :
    Coherent (followupRejected jobId skew r) := by
  have told := coherent.told settled
  cases skew with
  | true =>
    refine ⟨(nomatch ·), (nomatch ·), fun _ => ?_⟩
    simp [followupRejected, Option.isSome_iff_ne_none.mp told]
  | false => exact ⟨fun _ => told, fun _ => rfl, (nomatch ·)⟩

theorem Coherent.conclude (coherent : Coherent r) : Coherent (s.conclude r) := by
  unfold Settling.conclude
  dsimp only
  cases s.fallback with
  | none =>
    dsimp only
    by_cases tells : s.purpose = .handled ∨ s.purpose = .external ∨ s.purpose = .invalidPayload
    · rw [if_pos tells]
      exact coherent.reason _
    · rw [if_neg tells]
      exact coherent
  | some skew =>
    have inner : Coherent (if r.state = .settled then followupRejected r.jobId skew r else r) := by
      split_ifs with settled
      · exact coherent.followup settled _ _
      · exact coherent
    dsimp only
    by_cases tells : s.purpose = .handled ∨ s.purpose = .external ∨ s.purpose = .invalidPayload
    · rw [if_pos tells]
      exact inner.reason _
    · rw [if_neg tells]
      exact inner

theorem coherent_answered (jobId : Uuid) (a : Attempting) (result : SettleOutcome) :
    Coherent (a.answered jobId result) := by
  unfold Attempting.answered
  split_ifs
  · exact coherent_reportFromSettle _ _ _
  · exact coherent_runtimeFailure _ _

theorem Attempting.retry_coherent {jobId : Uuid} {control : Option RunControl} {a : Attempting} {code : String}
    {retryAfter jitter : ℚ} {backpressure availability : Bool}
    (gave : a.retry o jobId control stopping code retryAfter backpressure availability now jitter = .report r) :
    Coherent r := by
  unfold Attempting.retry at gave
  dsimp only at gave
  generalize (if backpressure = true then _ else _ : Bool) = allowed at gave
  cases allowed with
  | true =>
    rw [if_pos rfl] at gave
    generalize (backpressure && decide (o.settleBackpressureMaxElapsed < _)) = exceeds at gave
    cases exceeds <;> cases gave
    exact coherent_settlementUnknown _ _ _
  | false =>
    rw [if_neg (by simp)] at gave
    cases control with
    | none =>
      cases gave
      exact coherent_settlementUnknown _ _ _
    | some c =>
      cases gave
      split_ifs
      · exact coherent_ownershipLostReport _ _
      · exact coherent_settlementUnknown _ _ _

theorem Attempting.raised_coherent {jobId : Uuid} {control : Option RunControl} {a : Attempting} {jitter : ℚ}
    (gave : a.raised o jobId control stopping fault now jitter = .report r) : Coherent r := by
  unfold Attempting.raised at gave
  split at gave
  · cases gave
  · cases gave
  · split_ifs at gave
    cases gave
    exact coherent_runtimeFailure _ _
  · split_ifs at gave
    · exact Attempting.retry_coherent gave
    · cases gave
      exact coherent_runtimeFailure _ _
  · exact Attempting.retry_coherent gave
  · exact Attempting.retry_coherent gave
  · cases gave
    exact coherent_runtimeFailure _ _

end Reports

section Moves

/-- The task awaits its handler, or something before its settlement. -/
def Stage.waiting : Stage → Bool
  | .handling | .draining | .gracing _ | .dropping => true
  | _ => false

/-- The task has not begun to settle. -/
def Stage.before : Stage → Bool
  | .created => true
  | stage => stage.waiting

/-- Neither calls nor what was refused change, and lost ownership stays lost. -/
structure Silent (t t' : JobTask) : Prop where
  sent : t'.sent = t.sent
  refused : t'.refused = t.refused
  lost : lostBy t.control = true → lostBy t'.control = true

theorem Silent.refl (t : JobTask) : Silent t t := ⟨rfl, rfl, id⟩

theorem Silent.trans {t'' : JobTask} (first : Silent t t') (second : Silent t' t'') : Silent t t'' :=
  ⟨second.sent.trans first.sent, second.refused.trans first.refused, fun lost => second.lost (first.lost lost)⟩

theorem Silent.withControl {f : RunControl → RunControl} (keeps : ∀ c, c.ownershipLost = true → (f c).ownershipLost = true) :
    Silent t (t.withControl f) := by
  refine ⟨rfl, rfl, fun lost => ?_⟩
  obtain ⟨c, control, flag⟩ := (Option.any_eq_true _ _).mp lost
  exact (Option.any_eq_true _ _).mpr ⟨f c, by simp [JobTask.withControl, control], keeps c flag⟩

/-- A settlement is over; `good` says whether its report may be that of a settled attempt. -/
structure Over (t t' : JobTask) (good : Prop) : Prop where
  silent : Silent t t'
  ends : ∃ e, (t'.stage = .closing e ∨ t'.stage = .ended e) ∧
    ∀ r, e = .report r → Coherent r ∧ (r.state = .settled → good)

theorem JobTask.finish_over {e : TaskEnd} {good : Prop}
    (may : ∀ r, e = .report r → Coherent r ∧ (r.state = .settled → good)) : Over t (t.finish e) good :=
  ⟨⟨rfl, rfl, id⟩, e, .inr rfl, may⟩

theorem JobTask.close_over {e : TaskEnd} {good : Prop}
    (may : ∀ r, e = .report r → Coherent r ∧ (r.state = .settled → good)) : Over t (t.close e) good := by
  have silent : Silent t (t.withControl fun c => { c with settlementTerminal := true }) :=
    .withControl fun c lost => lost
  exact ⟨⟨rfl, rfl, silent.lost⟩, e, .inl rfl, may⟩

theorem JobTask.settled_over (coherent : Coherent r) : Over t (t.settled s r) (r.state = .settled) := by
  have renamed (outcome : JobRunOutcome) : Coherent (if r.state = .settled then { r with outcome := outcome } else r) ∧
      ((if r.state = .settled then { r with outcome := outcome } else r).state = .settled → r.state = .settled) := by
    split_ifs with settled
    · exact ⟨coherent.rename settled outcome, fun _ => settled⟩
    · exact ⟨coherent, id⟩
  unfold JobTask.settled
  split
  · exact finish_over fun r' same => by cases same; exact renamed _
  · exact ⟨⟨rfl, rfl, id⟩, _, .inr rfl, fun r' same => by cases same; exact renamed _⟩
  · exact finish_over fun r' same => by cases same; exact ⟨coherent, id⟩
  · exact finish_over fun r' same => nomatch same
  · exact close_over fun r' same => by cases same; exact ⟨coherent, id⟩
  · exact close_over fun r' same => by cases same; exact ⟨coherent, id⟩
  · exact close_over fun r' same => nomatch same

theorem Over.imp {good good' : Prop} (finishes : Over t t' good) (imp : good → good') : Over t t' good' := by
  obtain ⟨silent, e, ends, may⟩ := finishes
  exact ⟨silent, e, ends, fun r same => ⟨(may r same).1, fun settled => imp ((may r same).2 settled)⟩⟩

theorem Over.after {good : Prop} {t₁ : JobTask} (first : Silent t t₁) (finishes : Over t₁ t' good) : Over t t' good :=
  ⟨first.trans finishes.silent, finishes.ends⟩

/-- A call of the verb of `s` is made. -/
structure Calls (t t' : JobTask) (s : Settling) : Prop where
  owned : lostBy t.control = false
  sent : t'.sent = t.sent ++ [s.loop.command]
  stage : ∃ s', t'.stage = .settling s' ∧ s'.loop.command = s.loop.command ∧ s'.intent = s.intent ∧
    s'.fallback = s.fallback ∧ s'.purpose = s.purpose

/-- What the task does when it leaves the awaits before its settlement, or comes to the next of them. -/
inductive Opens (t t' : JobTask) : Prop
  | await (waiting : t'.stage.waiting = true) (silent : Silent t t')
  | enter (s : Settling) (stage : t'.stage = .settling s) (intent : s.intent = none) (direct : s.fallback = none)
      (silent : Silent t t')
  | first (s : Settling) (completes : s.fallback = none → s.intent = some (.complete true) → s.loop.command = .complete)
      (released : s.purpose = .external → s.intent = none) (calls : Calls t t' s) (refused : t'.refused = t.refused)
  | finishes (finishes : Over t t' False)

/-- The verb returned that the attempt is settled. -/
def Answered (event : JobEvent) (t : JobTask) : Prop :=
  ∃ s result, t.stage = .settling s ∧ s.phase = .calling ∧ event = .answered result ∧ result ≠ .lost ∧
    result ≠ .settleConflict

/-- What one step does, as far as the calls of the verbs go. -/
inductive Move (event : JobEvent) (t t' : JobTask) : Prop
  /-- The task stays where it is. -/
  | stay (stage : t'.stage = t.stage) (silent : Silent t t') (bare : t'.control.isSome = t.control.isSome)
  | skip (origin : t.stage = .created ∨ t.stage = .cancelledEarly)
      (stage : t'.stage = .created ∨ t'.stage = .cancelledEarly) (silent : Silent t t') (bare : t'.control = t.control)
  | opens (before : t.stage.before = true) (opens : Opens t t')
  /-- The verb is called again. -/
  | again (s : Settling) (origin : t.stage = .settling s) (calls : Calls t t' s) (refused : t'.refused = t.refused)
  /-- The failure of a job whose completion was refused is called. -/
  | fallback (s s' : Settling) (fault : Fault) (origin : t.stage = .settling s) (direct : s.fallback = none)
      (rejects : (invalidFollowup s.intent fault).isSome = true) (other : s'.fallback ≠ none)
      (same : s'.intent = s.intent ∧ s'.purpose = s.purpose) (failing : s'.loop.command = .fail)
      (calls : Calls t t' s') (refused : t'.refused = some fault)
  /-- The completion was refused, but ownership has been lost. -/
  | refuse (s : Settling) (fault : Fault) (origin : t.stage = .settling s) (direct : s.fallback = none)
      (rejects : (invalidFollowup s.intent fault).isSome = true)
      (finishes : Over { t with refused := some fault } t' False)
  | pause (s s' : Settling) (origin : t.stage = .settling s) (stage : t'.stage = .settling s')
      (command : s'.loop.command = s.loop.command) (same : s'.intent = s.intent ∧ s'.purpose = s.purpose)
      (direct : s'.fallback = s.fallback) (silent : Silent t t')
  | finishes (finishes : Over t t' (Answered event t))
  /-- The task, closed with a report, ends with it. -/
  | ends (e : TaskEnd) (origin : t.stage = .closing e) (stage : t'.stage = .ended e) (silent : Silent t t')

theorem lostBy_withControl {f : RunControl → RunControl} (same : ∀ c, (f c).ownershipLost = c.ownershipLost) :
    lostBy (t.withControl f).control = lostBy t.control := by
  cases control : t.control <;> simp [lostBy, JobTask.withControl, control, same]

@[simp] theorem markBlockingUnsafe_lost (t : JobTask) (c : RunControl) :
    (t.markBlockingUnsafe c).ownershipLost = c.ownershipLost := by
  unfold JobTask.markBlockingUnsafe
  split_ifs <;> rfl

theorem JobTask.attempt_cases (s : Settling) :
    Over t (t.attempt s) False ∨ (Calls t (t.attempt s) s ∧ (t.attempt s).refused = t.refused) := by
  unfold JobTask.attempt
  dsimp only
  split
  · rename_i c control
    split_ifs with lost
    · refine .inl ((settled_over (coherent_ownershipLostReport _ _).conclude).imp fun settled => ?_)
      exact ownershipLostReport_state _ _ (Settling.conclude_state settled)
    · exact .inr ⟨⟨by simp [lostBy, control, lost], rfl, _, rfl, rfl, rfl, rfl, rfl⟩, rfl⟩
  · rename_i control
    exact .inr ⟨⟨by simp [lostBy, control], rfl, _, rfl, rfl, rfl, rfl, rfl⟩, rfl⟩

theorem JobTask.settle_cases {purpose : Purpose} {intent : Option Intent} {reason : Option CancellationReason}
    {command : Verb} {fallback : Option Bool}
    (completes : fallback = none → intent = some (.complete true) → command = .complete)
    (released : purpose = .external → intent = none ∧ fallback = none) :
    Opens t (t.settle purpose intent reason command fallback now) := by
  have silent : Silent t (t.withControl fun c => { c with settling := true }) := .withControl fun c lost => lost
  have same : lostBy (t.withControl fun c => { c with settling := true }).control = lostBy t.control :=
    lostBy_withControl fun c => rfl
  unfold JobTask.settle
  dsimp only
  split_ifs with external
  · obtain ⟨rfl, rfl⟩ := released external
    exact .enter _ rfl rfl rfl ⟨rfl, rfl, silent.lost⟩
  · obtain finishes | ⟨calls, refused⟩ := JobTask.attempt_cases (t := t.withControl fun c => { c with settling := true })
      ⟨purpose, intent, reason, fallback, ⟨command, now, 0, none, false⟩, .entering⟩
    · exact .finishes (finishes.after silent)
    · exact .first _ completes (fun inner => absurd inner external) ⟨same ▸ calls.owned, calls.sent, calls.stage⟩ refused

theorem Opens.after {t₁ : JobTask} (first : Silent t t₁) (same : lostBy t₁.control = lostBy t.control)
    (opens : Opens t₁ t') : Opens t t' := by
  cases opens with
  | await waiting silent => exact .await waiting (first.trans silent)
  | enter s stage intent direct silent => exact .enter s stage intent direct (first.trans silent)
  | first s completes released calls refused =>
    exact .first s completes released ⟨same ▸ calls.owned, calls.sent.trans (by rw [first.sent]), calls.stage⟩
      (refused.trans first.refused)
  | finishes finishes => exact .finishes (finishes.after first)

theorem JobTask.afterGrace_opens : Opens t (t.afterGrace o c ended now) := by
  unfold JobTask.afterGrace
  split_ifs with lost external
  · exact .await rfl ⟨rfl, rfl, id⟩
  · exact settle_cases (by simp) fun _ => ⟨rfl, rfl⟩
  · split
    · exact .finishes (finish_over (by simp))
    · exact settle_cases (by simp) (by simp)
    · refine settle_cases (fun _ completes => ?_) (by simp)
      rw [completes]
      rfl

theorem JobTask.afterHandler_opens : Opens t (t.afterHandler o c ended now) := by
  unfold JobTask.afterHandler
  split_ifs
  · exact .await rfl ⟨rfl, rfl, id⟩
  · exact afterGrace_opens

theorem JobTask.cancelHandling_opens (control : t.control = some c) : Opens t (t.cancelHandling o c now) := by
  unfold JobTask.cancelHandling
  dsimp only
  split_ifs with unexplained awaiting
  · refine .await rfl ⟨rfl, rfl, fun lost => ?_⟩
    simp_all [lostBy, RunControl.unexplained]
  · refine .await rfl ⟨rfl, rfl, fun lost => ?_⟩
    simp_all [lostBy, RunControl.unexplained]
  · exact afterHandler_opens

theorem JobTask.start_opens (bare : t.control = none) {preparation : Preparation} :
    Opens t (t.start stopping deadlineReached now preparation) := by
  cases preparation with
  | unsupportedPolicy | noHandler | invalidPayload =>
    unfold JobTask.start
    exact settle_cases (by simp) (by simp)
  | raises => exact .finishes (finish_over (by simp))
  | ready isSync =>
    have unlost : lostBy t.control = true → False := by simp [bare, lostBy]
    unfold JobTask.start
    dsimp only
    split_ifs <;> exact .await rfl ⟨rfl, rfl, fun lost => (unlost lost).elim⟩

theorem JobTask.releasePrestart_opens : Opens t (t.releasePrestart now) := by
  unfold JobTask.releasePrestart
  have silent : Silent t { t with stops := true } := ⟨rfl, rfl, id⟩
  exact (settle_cases (by simp) (by simp)).after silent rfl

theorem JobTask.rejected_move (origin : t.stage = .settling s)
    (settles : s.purpose = .external → s.intent = none) : Move event t (t.rejected s fault now) := by
  have failed (r : JobRunReport) (coherent : Coherent r) (unsettled : r.state ≠ .settled) :
      Over t (t.settled s r) (Answered event t) :=
    (settled_over coherent).imp fun settled => absurd settled unsettled
  have failure := coherent_runtimeFailure t.jobId s.loop.command
  unfold JobTask.rejected
  dsimp only
  split
  · split_ifs
    · exact .finishes (failed _ (failure.reason _) (by simp [runtimeFailure]))
    · exact .finishes (failed _ failure (by simp [runtimeFailure]))
  · rename_i direct
    split
    · rename_i skew rejects
      unfold JobTask.settleInvalidFollowup JobTask.settle
      dsimp only
      have inner : s.purpose ≠ .external := fun external => by simp [settles external, invalidFollowup] at rejects
      rw [if_neg inner]
      have flag : lostBy (JobTask.withControl { t with refused := some fault } fun c => { c with settling := true }).control =
          lostBy t.control := lostBy_withControl (t := { t with refused := some fault }) fun c => rfl
      obtain finishes | ⟨calls, refused⟩ := attempt_cases
        (t := JobTask.withControl { t with refused := some fault } fun c => { c with settling := true })
        ⟨s.purpose, s.intent, s.reason, some skew, ⟨.fail, now, 0, none, false⟩, .entering⟩
      · have silent : Silent { t with refused := some fault } (JobTask.withControl { t with refused := some fault }
            fun c => { c with settling := true }) := .withControl fun c lost => lost
        exact .refuse s fault origin direct (by simp [rejects]) (finishes.after silent)
      · exact .fallback s ⟨s.purpose, s.intent, s.reason, some skew, ⟨.fail, now, 0, none, false⟩, .entering⟩ fault
          origin direct (by simp [rejects]) (by simp) ⟨rfl, rfl⟩ rfl
          ⟨flag ▸ calls.owned, calls.sent, calls.stage⟩ refused
    · exact .finishes (failed _ failure (by simp [runtimeFailure]))

theorem JobTask.answer_move (origin : t.stage = .settling s) (calling : s.phase = .calling)
    (settles : s.purpose = .external → s.intent = none) (run : t.answer o stopping now s event = some t') :
    Move event t t' := by
  unfold JobTask.answer at run
  split at run
  · rename_i result
    cases run
    refine .finishes ((settled_over (coherent_answered _ _ _).conclude).imp fun settled => ?_)
    have state := Settling.conclude_state settled
    unfold Attempting.answered at state
    split_ifs at state
    · exact ⟨s, result, origin, calling, rfl, reportFromSettle_settled.mp state⟩
    · simp [runtimeFailure] at state
  · split at run
    · rename_i r gave
      cases run
      refine .finishes ((settled_over (Attempting.raised_coherent gave).conclude).imp fun settled => ?_)
      exact absurd (Settling.conclude_state settled) (Attempting.raised_state gave)
    · cases run
      exact rejected_move origin settles
    · rename_i delay wake loop slept
      cases run
      exact .pause s _ origin rfl (Attempting.raised_command slept) ⟨rfl, rfl⟩ rfl ⟨rfl, rfl, id⟩
  · cases run

theorem JobTask.cancelled_move (run : t.cancelled o now = some t') : Move event t t' := by
  have dropped : Over t (t.finish .cancelled) (Answered event t) := finish_over (by simp)
  unfold JobTask.cancelled at run
  split at run
  · rename_i origin
    cases run
    exact .skip (.inl origin) (.inr rfl) ⟨rfl, rfl, id⟩ rfl
  · rename_i origin
    obtain ⟨c, control, rfl⟩ := Option.map_eq_some_iff.mp run
    exact .opens (by rw [origin]; rfl) (cancelHandling_opens control)
  · cases run
    exact .finishes dropped
  · cases run
    exact .finishes dropped
  · cases run
    exact .finishes dropped
  · cases run
    exact .finishes dropped
  · split at run
    · cases run
      exact .stay rfl (.refl t) rfl
    · cases run
      exact .finishes (close_over (by simp))
    · cases run
      exact .finishes (close_over (by simp))
    · cases run
      exact .finishes dropped
  · cases run
  · cases run

theorem JobTask.resume_move (run : t.resume o now = some t') : Move event t t' := by
  unfold JobTask.resume at run
  split at run
  · rename_i c origin control
    split_ifs at run
    cases run
    exact .opens (by rw [origin]; rfl) afterHandler_opens
  · rename_i ended c origin control
    cases run
    exact .opens (by rw [origin]; rfl) afterGrace_opens
  · rename_i c origin control
    cases run
    refine .finishes (finish_over fun r same => ?_)
    cases same
    exact ⟨coherent_ownershipLostReport _ _, fun settled => absurd settled (ownershipLostReport_state _ _)⟩
  · rename_i control e origin
    cases run
    exact .ends e origin rfl ⟨rfl, rfl, id⟩
  · rename_i control s origin
    split_ifs at run
    cases run
    obtain finishes | ⟨calls, refused⟩ := attempt_cases (t := t) { s with loop := { s.loop with startedAt := now } }
    · exact .finishes (finishes.imp False.elim)
    · exact .again s origin ⟨calls.owned, calls.sent, calls.stage⟩ refused
  · cases run

/-- A settlement after an external cancellation releases the job or fails it. -/
def Releases (t : JobTask) : Prop := ∀ s, t.stage = .settling s → s.purpose = .external → s.intent = none

theorem JobTask.step_move (run : t.step o stopping deadlineReached now event = some t')
    (bare : t.stage = .created → t.control = none) (releases : Releases t) : Move event t t' := by
  cases event with
  | start preparation =>
    simp only [JobTask.step] at run
    split at run
    · rename_i origin
      cases run
      refine .opens (by rw [origin]; rfl) ?_
      split_ifs
      · exact releasePrestart_opens
      · exact start_opens (bare origin)
    · cases run
  | recover =>
    simp only [JobTask.step] at run
    split at run
    · rename_i origin
      split_ifs at run
      cases run
      exact .skip (.inr origin) (.inl rfl) ⟨rfl, rfl, id⟩ rfl
    · cases run
  | handlerEnded ended =>
    simp only [JobTask.step] at run
    have silent : Silent t { t with handlerDone := true } := ⟨rfl, rfl, id⟩
    split at run
    · rename_i c origin control
      cases run
      refine .opens (by rw [origin]; rfl) ?_
      split_ifs
      · exact (cancelHandling_opens (t := { t with handlerDone := true }) control).after silent rfl
      · exact afterHandler_opens.after silent rfl
    · cases run
    · cases run
    · cases run
    · cases run
      exact .stay rfl silent rfl
  | awaited => exact resume_move run
  | answered result =>
    simp only [JobTask.step] at run
    split at run
    · rename_i s origin
      split_ifs at run with calling
      exact answer_move origin calling (releases s origin) run
    · cases run
  | failed fault jitter =>
    simp only [JobTask.step] at run
    split at run
    · rename_i s origin
      split_ifs at run with calling
      exact answer_move origin calling (releases s origin) run
    · cases run
  | wake =>
    simp only [JobTask.step] at run
    split at run
    · rename_i s origin
      split at run
      · cases run
        obtain finishes | ⟨calls, refused⟩ := attempt_cases (t := t) s
        · exact .finishes (finishes.imp False.elim)
        · exact .again s origin calls refused
      · cases run
    · cases run
  | cancel => exact cancelled_move run
  | lose confirmed runtimeFailed =>
    simp only [JobTask.step] at run
    split_ifs at run with owned
    cases run
    have silent : Silent t (t.loseOwnership runtimeFailed) := by
      refine .withControl fun c _ => ?_
      dsimp only
      split_ifs
      · rfl
      · rfl
      · exact markBlockingUnsafe_lost _ _
    exact .stay rfl ⟨rfl, rfl, silent.lost⟩ (by simp [JobTask.loseOwnership, JobTask.withControl])
  | operatorCancel =>
    simp only [JobTask.step] at run
    split_ifs at run
    cases run
    exact .stay rfl (.withControl fun c lost => lost) (by simp [JobTask.requestOperatorCancel, JobTask.withControl])
  | graceExpired =>
    simp only [JobTask.step] at run
    split_ifs at run
    cases run
    refine .stay rfl (.withControl fun c lost => ?_) (by simp [JobTask.graceExpired, JobTask.withControl])
    split_ifs
    · rw [markBlockingUnsafe_lost, lost]
    · exact lost
  | blocking unfinished =>
    cases run
    exact .stay rfl ⟨rfl, rfl, id⟩ rfl
  | softStop =>
    cases run
    exact .stay rfl (.withControl fun c lost => lost) (by simp [JobTask.withControl])
  | deadline =>
    cases run
    refine .stay rfl (.withControl fun c lost => ?_) (by simp [JobTask.enforceShutdownDeadline, JobTask.withControl])
    dsimp only
    split_ifs
    · exact (markBlockingUnsafe_lost _ _).trans lost
    · exact lost

end Moves

section Frame

/-- The job's ownership is as it was, and no call has been taken back. -/
structure Same (t t' : JobTask) : Prop where
  jobId : t'.jobId = t.jobId
  disowned : t'.disowned = t.disowned
  lost : lostBy t'.control = lostBy t.control
  sent : t.sent <+: t'.sent

theorem Same.refl (t : JobTask) : Same t t := ⟨rfl, rfl, rfl, List.prefix_rfl⟩

theorem Same.trans {t'' : JobTask} (first : Same t t') (second : Same t' t'') : Same t t'' :=
  ⟨second.jobId.trans first.jobId, second.disowned.trans first.disowned, second.lost.trans first.lost,
    first.sent.trans second.sent⟩

theorem Same.withControl {f : RunControl → RunControl} (same : ∀ c, (f c).ownershipLost = c.ownershipLost) :
    Same t (t.withControl f) :=
  ⟨rfl, rfl, lostBy_withControl same, List.prefix_rfl⟩

theorem JobTask.finish_same {e : TaskEnd} : Same t (t.finish e) := ⟨rfl, rfl, rfl, List.prefix_rfl⟩

theorem JobTask.close_same {e : TaskEnd} : Same t (t.close e) :=
  ⟨rfl, rfl, lostBy_withControl fun _ => rfl, List.prefix_rfl⟩

theorem JobTask.settled_same : Same t (t.settled s r) := by
  unfold JobTask.settled
  split
  · exact finish_same
  · exact ⟨rfl, rfl, rfl, List.prefix_rfl⟩
  · exact finish_same
  · exact finish_same
  · exact close_same
  · exact close_same
  · exact close_same

theorem JobTask.attempt_same : Same t (t.attempt s) := by
  unfold JobTask.attempt
  dsimp only
  split
  · split_ifs
    · exact settled_same
    · exact ⟨rfl, rfl, rfl, List.prefix_append _ _⟩
  · exact ⟨rfl, rfl, rfl, List.prefix_append _ _⟩

theorem JobTask.settle_same {purpose : Purpose} {intent : Option Intent} {reason : Option CancellationReason}
    {command : Verb} {fallback : Option Bool} :
    Same t (t.settle purpose intent reason command fallback now) := by
  have settling : Same t (t.withControl fun c => { c with settling := true }) := .withControl fun _ => rfl
  unfold JobTask.settle
  dsimp only
  split_ifs
  · exact ⟨rfl, rfl, settling.lost, List.prefix_rfl⟩
  · exact settling.trans attempt_same

theorem JobTask.rejected_same : Same t (t.rejected s fault now) := by
  unfold JobTask.rejected JobTask.settleInvalidFollowup
  dsimp only
  split
  · exact settled_same
  · split
    · refine .trans ?_ settle_same
      exact ⟨rfl, rfl, rfl, List.prefix_rfl⟩
    · exact settled_same

theorem JobTask.afterGrace_same : Same t (t.afterGrace o c ended now) := by
  unfold JobTask.afterGrace JobTask.settleInvalidFollowup
  split_ifs
  · exact ⟨rfl, rfl, rfl, List.prefix_rfl⟩
  · exact settle_same
  · split
    · exact finish_same
    · exact settle_same
    · exact settle_same

theorem JobTask.afterHandler_same : Same t (t.afterHandler o c ended now) := by
  unfold JobTask.afterHandler
  split_ifs
  · exact ⟨rfl, rfl, rfl, List.prefix_rfl⟩
  · exact afterGrace_same

theorem JobTask.cancelHandling_same (control : t.control = some c) : Same t (t.cancelHandling o c now) := by
  unfold JobTask.cancelHandling
  dsimp only
  split_ifs
  · exact ⟨rfl, rfl, by simp [control, lostBy, RunControl.cancel], List.prefix_rfl⟩
  · exact ⟨rfl, rfl, by simp [control, lostBy, RunControl.cancel], List.prefix_rfl⟩
  · exact afterHandler_same

theorem JobTask.enforceShutdownDeadline_same : Same t t.enforceShutdownDeadline := by
  refine .withControl fun c => ?_
  dsimp only
  split_ifs
  · exact markBlockingUnsafe_lost _ _
  · rfl

theorem JobTask.start_same (bare : t.control = none) (preparation : Preparation) :
    Same t (t.start stopping deadlineReached now preparation) := by
  have lost : lostBy t.control = false := by rw [bare]; rfl
  cases preparation with
  | unsupportedPolicy | noHandler | invalidPayload =>
    unfold JobTask.start
    exact settle_same
  | raises => exact finish_same
  | ready isSync =>
    have begun (c : RunControl) (owned : c.ownershipLost = false) :
        Same t { t with control := some c, stage := .handling } :=
      ⟨rfl, rfl, by simp [lostBy, bare, owned], List.prefix_rfl⟩
    unfold JobTask.start
    dsimp only
    split_ifs
    · exact (begun _ rfl).trans enforceShutdownDeadline_same
    · exact (begun _ rfl).trans enforceShutdownDeadline_same
    · exact begun _ rfl
    · exact begun _ rfl

theorem JobTask.answer_same (run : t.answer o stopping now s event = some t') : Same t t' := by
  unfold JobTask.answer at run
  split at run
  · cases run
    exact settled_same
  · split at run
    · cases run
      exact settled_same
    · cases run
      exact rejected_same
    · cases run
      exact ⟨rfl, rfl, rfl, List.prefix_rfl⟩
  · cases run

theorem JobTask.cancelled_same (run : t.cancelled o now = some t') : Same t t' := by
  unfold JobTask.cancelled at run
  split at run
  · cases run
    exact ⟨rfl, rfl, rfl, List.prefix_rfl⟩
  · obtain ⟨c, control, rfl⟩ := Option.map_eq_some_iff.mp run
    exact cancelHandling_same control
  · cases run
    exact finish_same
  · cases run
    exact finish_same
  · cases run
    exact finish_same
  · cases run
    exact finish_same
  · split at run
    · cases run
      exact .refl t
    · cases run
      exact close_same
    · cases run
      exact close_same
    · cases run
      exact finish_same
  · cases run
  · cases run

theorem JobTask.resume_same (run : t.resume o now = some t') : Same t t' := by
  unfold JobTask.resume at run
  split at run
  · split_ifs at run
    cases run
    exact afterHandler_same
  · cases run
    exact afterGrace_same
  · cases run
    exact finish_same
  · cases run
    exact finish_same
  · split_ifs at run
    cases run
    exact attempt_same
  · cases run

/-- A step other than a loss of the job leaves its ownership alone. -/
theorem JobTask.step_same (run : t.step o stopping deadlineReached now event = some t')
    (kept : ∀ confirmed failed, event ≠ .lose confirmed failed) (bare : t.stage = .created → t.control = none) :
    Same t t' := by
  cases event with
  | start preparation =>
    simp only [JobTask.step] at run
    split at run
    · rename_i origin
      cases run
      split_ifs
      · refine .trans ?_ settle_same
        exact ⟨rfl, rfl, rfl, List.prefix_rfl⟩
      · exact start_same (bare origin) preparation
    · cases run
  | recover =>
    simp only [JobTask.step] at run
    split at run
    · split_ifs at run
      cases run
      exact ⟨rfl, rfl, rfl, List.prefix_rfl⟩
    · cases run
  | handlerEnded ended =>
    have marked : Same t { t with handlerDone := true } := ⟨rfl, rfl, rfl, List.prefix_rfl⟩
    simp only [JobTask.step] at run
    split at run
    · rename_i c origin control
      cases run
      split_ifs
      · exact marked.trans (cancelHandling_same control)
      · exact marked.trans afterHandler_same
    · cases run
    · cases run
    · cases run
    · cases run
      exact marked
  | awaited => exact resume_same run
  | answered result =>
    simp only [JobTask.step] at run
    split at run
    · split_ifs at run
      exact answer_same run
    · cases run
  | failed fault jitter =>
    simp only [JobTask.step] at run
    split at run
    · split_ifs at run
      exact answer_same run
    · cases run
  | wake =>
    simp only [JobTask.step] at run
    split at run
    · split at run
      · cases run
        exact attempt_same
      · cases run
    · cases run
  | cancel => exact cancelled_same run
  | lose confirmed failed => exact absurd rfl (kept confirmed failed)
  | operatorCancel =>
    simp only [JobTask.step] at run
    split_ifs at run
    cases run
    exact .withControl fun _ => rfl
  | graceExpired =>
    simp only [JobTask.step] at run
    split_ifs at run
    cases run
    refine .withControl fun c => ?_
    split_ifs
    · exact markBlockingUnsafe_lost _ _
    · rfl
  | blocking unfinished =>
    cases run
    exact ⟨rfl, rfl, rfl, List.prefix_rfl⟩
  | softStop =>
    cases run
    exact .withControl fun _ => rfl
  | deadline =>
    cases run
    exact enforceShutdownDeadline_same

/-- A task stays the task of its job. -/
theorem JobTask.step_jobId (run : t.step o stopping deadlineReached now event = some t')
    (bare : t.stage = .created → t.control = none) : t'.jobId = t.jobId := by
  by_cases loses : ∃ confirmed failed, event = .lose confirmed failed
  · obtain ⟨confirmed, failed, rfl⟩ := loses
    simp only [JobTask.step] at run
    split_ifs at run
    cases run
    rfl
  · exact (step_same run (fun confirmed failed same => loses ⟨confirmed, failed, same⟩) bare).jobId

end Frame
end Worker
end Taskq
