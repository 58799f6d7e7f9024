import Taskq.Worker.Supervision

/-! The supervision of a job calls one verb for the attempt, and calls nothing after it has lost the attempt. -/
namespace Taskq
namespace Worker

/-- The calls so far are calls of the verb, or of the failure of a job whose completion was refused for good. -/
inductive Under (v : Verb) (t : JobTask) : Prop
  | only (n : ℕ) (calls : t.sent = List.replicate n v)
  | failing (n m : ℕ) (fault : Fault) (fail : v = .fail) (refused : t.refused = some fault)
      (rejects : (invalidFollowup (some (.complete true)) fault).isSome = true)
      (calls : t.sent = List.replicate n .complete ++ List.replicate m .fail)

/-- One verb, called again and again, settles the attempt; after a completion with followups that was refused for good
it is the failure of the job. -/
def SettlesOnce (t : JobTask) : Prop := ∃ v, Under v t

section Task

variable {o : Options} {t t' : JobTask} {v : Verb} {event : JobEvent} {stopping deadlineReached : Bool} {now : ℚ}

theorem Under.silent (silent : Silent t t') (under : Under v t) : Under v t' := by
  cases under with
  | only n calls => exact .only n (silent.sent.trans calls)
  | failing n m fault fail refused rejects calls =>
    exact .failing n m fault fail (silent.refused.trans refused) rejects (silent.sent.trans calls)

theorem Under.of_nil (empty : t.sent = []) : Under v t := .only 0 empty

theorem Under.call (under : Under v t) (sent : t'.sent = t.sent ++ [v]) (refused : t'.refused = t.refused) :
    Under v t' := by
  cases under with
  | only n calls => exact .only (n + 1) (by rw [sent, calls, List.replicate_succ'])
  | failing n m fault fail refused' rejects calls =>
    subst fail
    exact .failing n (m + 1) fault rfl (refused.trans refused') rejects
      (by rw [sent, calls, List.replicate_succ', List.append_assoc])

theorem intent_of_rejects {intent : Option Intent} {fault : Fault}
    (rejects : (invalidFollowup intent fault).isSome = true) : intent = some (.complete true) := by
  by_contra other
  simp [invalidFollowup, other] at rejects

theorem Stage.before_of_waiting {stage : Stage} (waiting : stage.waiting = true) : stage.before = true := by
  cases stage <;> first | exact waiting | rfl

/-- What holds of the supervision of a job between two steps. -/
structure Orderly (t : JobTask) : Prop where
  bare : t.stage = .created ∨ t.stage = .cancelledEarly → t.control = none ∧ t.sent = []
  before : t.stage.before = true → t.sent = []
  releases : Releases t
  completes : ∀ s, t.stage = .settling s → s.fallback = none → s.intent = some (.complete true) →
    s.loop.command = .complete
  form : ∀ s, t.stage = .settling s → Under s.loop.command t
  once : SettlesOnce t
  reported : ∀ r, t.stage = .closing (.report r) ∨ t.stage = .ended (.report r) → Coherent r

/-- A task that has called no verb and has not come to its settlement is orderly. -/
theorem Orderly.quiet (empty : t.sent = []) (early : t.stage.before = true ∨ t.stage = .cancelledEarly)
    (bare : t.stage = .created ∨ t.stage = .cancelledEarly → t.control = none) : Orderly t := by
  have unsettled (s : Settling) : t.stage ≠ .settling s := by
    intro here
    simp [here, Stage.before, Stage.waiting] at early
  refine ⟨fun early => ⟨bare early, empty⟩, fun _ => empty, fun s here => absurd here (unsettled s),
    fun s here => absurd here (unsettled s), fun s here => absurd here (unsettled s), ⟨.fail, .of_nil empty⟩,
    fun r here => ?_⟩
  obtain here | here := here
  · simp [here, Stage.before, Stage.waiting] at early
  · simp [here, Stage.before, Stage.waiting] at early

theorem Orderly.submitted (jobId : Uuid) (leaseSeconds : ℤ) : Orderly (.submitted jobId leaseSeconds) :=
  .quiet rfl (.inl rfl) fun _ => rfl

/-- A task that settles stays orderly. -/
theorem Orderly.settling {s : Settling} (stage : t.stage = .settling s) (under : Under s.loop.command t)
    (completes : s.fallback = none → s.intent = some (.complete true) → s.loop.command = .complete)
    (releases : s.purpose = .external → s.intent = none) : Orderly t where
  bare := fun early => by simp [stage] at early
  before := fun early => by simp [stage, Stage.before, Stage.waiting] at early
  releases := fun s' here => by cases here.symm.trans stage; exact releases
  completes := fun s' here => by cases here.symm.trans stage; exact completes
  form := fun s' here => by cases here.symm.trans stage; exact under
  once := ⟨_, under⟩
  reported := fun r here => by obtain here | here := here <;> cases here.symm.trans stage

/-- A task that is over is orderly, whatever it called. -/
theorem Orderly.finished {e : TaskEnd} (stage : t.stage = .closing e ∨ t.stage = .ended e)
    (coherent : ∀ r, e = .report r → Coherent r) (once : SettlesOnce t) : Orderly t where
  bare := fun early => by obtain stage | stage := stage <;> simp [stage] at early
  before := fun early => by obtain stage | stage := stage <;> simp [stage, Stage.before, Stage.waiting] at early
  releases := fun s here => by obtain stage | stage := stage <;> cases here.symm.trans stage
  completes := fun s here => by obtain stage | stage := stage <;> cases here.symm.trans stage
  form := fun s here => by obtain stage | stage := stage <;> cases here.symm.trans stage
  once := once
  reported := fun r here => by
    obtain stage | stage := stage <;> obtain here | here := here <;> cases here.symm.trans stage <;> exact coherent r rfl

theorem Orderly.move (orderly : Orderly t) (move : Move event t t') : Orderly t' := by
  cases move with
  | stay stage silent bare =>
    obtain ⟨v, under⟩ := orderly.once
    refine ⟨fun early => ?_, fun early => ?_, ?_, ?_, ?_, ⟨v, under.silent silent⟩, ?_⟩
    · obtain ⟨clear, empty⟩ := orderly.bare (stage ▸ early)
      refine ⟨?_, silent.sent.trans empty⟩
      simpa [clear] using bare
    · exact silent.sent.trans (orderly.before (stage ▸ early))
    · exact fun s here => orderly.releases s (stage ▸ here)
    · exact fun s here => orderly.completes s (stage ▸ here)
    · exact fun s here => (orderly.form s (stage ▸ here)).silent silent
    · exact fun r here => orderly.reported r (stage ▸ here)
  | skip origin stage silent bare =>
    obtain ⟨clear, empty⟩ := orderly.bare origin
    refine .quiet (silent.sent.trans empty) ?_ fun _ => bare.trans clear
    obtain stage | stage := stage
    · exact .inl (by rw [stage]; rfl)
    · exact .inr stage
  | opens before opens =>
    have empty := orderly.before before
    cases opens with
    | await waiting silent =>
      refine .quiet (silent.sent.trans empty) (.inl (Stage.before_of_waiting waiting)) fun early => ?_
      obtain early | early := early <;> simp [early, Stage.waiting] at waiting
    | enter s stage intent direct silent =>
      exact .settling stage (.of_nil (silent.sent.trans empty)) (by simp [intent]) fun _ => intent
    | first s completes released calls refused =>
      obtain ⟨s', stage, command, intent, direct, purpose⟩ := calls.stage
      have under : Under s.loop.command t := .of_nil empty
      refine .settling stage (command ▸ under.call calls.sent refused) ?_ ?_
      · rw [direct, intent, command]
        exact completes
      · rw [purpose, intent]
        exact released
    | finishes finishes =>
      obtain ⟨silent, e, ended, may⟩ := finishes
      exact .finished ended (fun r same => (may r same).1) ⟨.fail, .of_nil (silent.sent.trans empty)⟩
  | again s origin calls refused =>
    obtain ⟨s', stage, command, intent, direct, purpose⟩ := calls.stage
    refine .settling stage (command ▸ (orderly.form s origin).call calls.sent refused) ?_ ?_
    · rw [direct, intent, command]
      exact orderly.completes s origin
    · rw [purpose, intent]
      exact orderly.releases s origin
  | fallback s s' fault origin direct rejects other same failing calls refused =>
    obtain ⟨s'', stage, command, intent, falls, purpose⟩ := calls.stage
    have completion := intent_of_rejects rejects
    have completing := orderly.completes s origin direct completion
    have under : Under .fail t' := by
      cases orderly.form s origin with
      | only n sent =>
        refine .failing n 1 fault rfl refused (completion ▸ rejects) ?_
        rw [calls.sent, sent, completing, failing]
        rfl
      | failing n m _ fail => rw [completing] at fail; cases fail
    refine .settling stage ((command.trans failing).symm ▸ under) (fun bare => ?_) fun external => ?_
    · exact absurd (falls.symm.trans bare) other
    · rw [purpose, same.2] at external
      exact nomatch (orderly.releases s origin external).symm.trans completion
  | refuse s fault origin direct rejects finishes =>
    obtain ⟨silent, e, ended, may⟩ := finishes
    have completing := orderly.completes s origin direct (intent_of_rejects rejects)
    cases orderly.form s origin with
    | only n sent => exact .finished ended (fun r same => (may r same).1) ⟨_, .only n (silent.sent.trans sent)⟩
    | failing n m _ fail => rw [completing] at fail; cases fail
  | pause s s' origin stage command same direct silent =>
    refine .settling stage (command ▸ (orderly.form s origin).silent silent) ?_ ?_
    · rw [direct, same.1, command]
      exact orderly.completes s origin
    · rw [same.1, same.2]
      exact orderly.releases s origin
  | finishes finishes =>
    obtain ⟨v, under⟩ := orderly.once
    obtain ⟨silent, e, ended, may⟩ := finishes
    exact .finished ended (fun r same => (may r same).1) ⟨v, under.silent silent⟩
  | ends e origin stage silent =>
    obtain ⟨v, under⟩ := orderly.once
    exact .finished (.inr stage) (fun r same => orderly.reported r (.inl (same ▸ origin))) ⟨v, under.silent silent⟩

theorem Orderly.step (orderly : Orderly t) (run : t.step o stopping deadlineReached now event = some t') : Orderly t' :=
  orderly.move (JobTask.step_move run (fun created => (orderly.bare (.inl created)).1) orderly.releases)

/-- A task that has lost its job calls no verb and does not get it back. -/
theorem Orderly.lost (orderly : Orderly t) (run : t.step o stopping deadlineReached now event = some t')
    (lost : lostBy t.control = true) : t'.sent = t.sent ∧ lostBy t'.control = true := by
  have silently (silent : Silent t t') : t'.sent = t.sent ∧ lostBy t'.control = true := ⟨silent.sent, silent.lost lost⟩
  have owns {s : Settling} (calls : Calls t t' s) : False := nomatch lost.symm.trans calls.owned
  cases JobTask.step_move run (fun created => (orderly.bare (.inl created)).1) orderly.releases with
  | stay stage silent bare => exact silently silent
  | skip origin stage silent bare => exact silently silent
  | opens before opens =>
    cases opens with
    | await waiting silent => exact silently silent
    | enter s stage intent direct silent => exact silently silent
    | first s completes released calls refused => exact (owns calls).elim
    | finishes finishes => exact silently finishes.silent
  | again s origin calls refused => exact (owns calls).elim
  | fallback s s' fault origin direct rejects other same failing calls refused => exact (owns calls).elim
  | refuse s fault origin direct rejects finishes => exact ⟨finishes.silent.sent, finishes.silent.lost lost⟩
  | pause s s' origin stage command same direct silent => exact silently silent
  | finishes finishes => exact silently finishes.silent
  | ends e origin stage silent => exact silently silent

/-- The task is over with a report of a settled attempt. -/
def ReportsSettled (t : JobTask) : Prop :=
  ∃ r, (t.stage = .closing (.report r) ∨ t.stage = .ended (.report r)) ∧ r.state = .settled

theorem Orderly.reports (orderly : Orderly t) (run : t.step o stopping deadlineReached now event = some t')
    (reports : ReportsSettled t') : ReportsSettled t ∨ Answered event t := by
  obtain ⟨r, stage', settled⟩ := reports
  have finishes {good : Prop} {t₁ : JobTask} (finishes : Over t₁ t' good) : good := by
    obtain ⟨-, e, ended, may⟩ := finishes
    have same : e = .report r := by
      obtain ended | ended := ended <;> obtain here | here := stage' <;> cases here.symm.trans ended <;> rfl
    exact (may r same).2 settled
  have busy {s : Settling} (stage : t'.stage = .settling s) : False := by
    obtain here | here := stage' <;> cases here.symm.trans stage
  cases JobTask.step_move run (fun created => (orderly.bare (.inl created)).1) orderly.releases with
  | stay stage silent bare => exact .inl ⟨r, stage ▸ stage', settled⟩
  | skip origin stage silent bare =>
    obtain here | here := stage' <;> obtain stage | stage := stage <;> cases here.symm.trans stage
  | opens before opens =>
    cases opens with
    | await waiting silent => obtain here | here := stage' <;> simp [here, Stage.waiting] at waiting
    | enter s stage intent direct silent => exact (busy stage).elim
    | first s completes released calls refused => exact (busy calls.stage.choose_spec.1).elim
    | finishes never => exact (finishes never).elim
  | again s origin calls refused => exact (busy calls.stage.choose_spec.1).elim
  | fallback s s' fault origin direct rejects other same failing calls refused =>
    exact (busy calls.stage.choose_spec.1).elim
  | refuse s fault origin direct rejects never => exact (finishes never).elim
  | pause s s' origin stage command same direct silent => exact (busy stage).elim
  | finishes good => exact .inr (finishes good)
  | ends e origin stage silent =>
    have same : e = .report r := by
      obtain here | here := stage' <;> cases here.symm.trans stage
      rfl
    exact .inl ⟨r, .inl (same ▸ origin), settled⟩

end Task

end Worker
end Taskq
