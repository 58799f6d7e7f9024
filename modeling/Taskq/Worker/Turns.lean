import Taskq.Worker.Runs

/-! Where the claim loop stands after a step, and which nudges it has seen. -/
namespace Taskq
namespace Worker

variable {o : ServiceOptions} {w : Options} {now : ℚ} {draws : Draws} {s t u : Service} {c : Claiming}

section Turns

/-- The event nudges the claim loop and asks for no stop: a notification, or the connection of the listener. -/
def ServiceEvent.nudges : ServiceEvent → Bool
  | .nudge => true
  | .listener connected => connected
  | _ => false

/-- The nudges that arrived in a step, unless the service is being stopped. -/
def Nudged (s : Service) (event : ServiceEvent) (u : Service) : Prop :=
  u.generation = s.generation ∨ u.stopRequested = true ∨ event.nudges = true ∧ u.generation = s.generation + 1

/-- What a step does to the claim loop: it stays at its await, or goes on to another. -/
inductive Turns (w : Options) (s : Service) (event : ServiceEvent) (u : Service) : Prop
  | stays (loop : u.claimLoop = s.claimLoop) (asked : u.asked = s.asked)
      (seen : Nudged s event u)
      (stops : s.stopRequested = true → u.stopRequested = true)
  | goes (asked waited : Option ℕ)
      (fresh : asked = some u.generation ∧ waited = none ∨
        (∃ c, s.claimLoop = .claiming c ∧ c.claimed = false) ∧ asked = s.asked ∧ waited = s.asked ∧
          (u.generation = s.generation ∨ u.stopRequested = true))
      (seen : Nudged s event u)
      (stops : s.stopRequested = true → u.stopRequested = true) (placed : Placed w asked waited u)

theorem Turns.begins {event : ServiceEvent} (loops : Loops s u)
    (placed : Placed w (some u.generation) none u) : Turns w s event u :=
  .goes _ _ (.inl ⟨rfl, rfl⟩) (.inl loops.generation) loops.stopRequested.trans placed

/-- The claim loop comes to an await that is neither a claim nor a wait for nudges. -/
theorem Turns.leaves {event : ServiceEvent} (aside : u.claimLoop.aside = true)
    (seen : Nudged s event u)
    (stops : s.stopRequested = true → u.stopRequested = true) : Turns w s event u :=
  .goes _ _ (.inl ⟨rfl, rfl⟩) seen stops (.idle aside)

theorem Service.resumeSweep_turns {event : ServiceEvent} (loop : s.claimLoop = .claiming c)
    (same : t.asked = s.asked) (seen : t.generation = s.generation ∨ t.stopRequested = true)
    (stops : s.stopRequested = true → t.stopRequested = true) :
    Turns w s event (t.resumeSweep o w now draws c) := by
  have loops : Loops t (t.resumeSweep o w now draws c) := resumeSweep_loops
  have nudged : (t.resumeSweep o w now draws c).generation = s.generation ∨
      (t.resumeSweep o w now draws c).stopRequested = true := by
    rw [loops.generation, loops.stopRequested]
    exact seen
  have stops' (before : s.stopRequested = true) : (t.resumeSweep o w now draws c).stopRequested = true :=
    loops.stopRequested.trans (stops before)
  cases claimed : c.claimed with
  | true => exact .goes _ _ (.inl ⟨rfl, rfl⟩) (nudged.imp_right .inl) stops' (resumeSweep_placed_claimed claimed)
  | false => 
    exact .goes _ _ (.inr ⟨⟨c, loop, claimed⟩, same, same, nudged⟩) (nudged.imp_right .inl) stops'
      (resumeSweep_placed claimed)

theorem Service.failLoop_turns {event : ServiceEvent} : Turns w s event t.failLoop :=
  .leaves rfl (.inr (.inl rfl)) fun _ => rfl

theorem Service.observeClaimResult_asked (got asked : ℕ) : (s.observeClaimResult o got asked).asked = s.asked := by
  unfold observeClaimResult
  split_ifs <;> rfl

theorem Service.noteClaimError_asked {queue : String} {code : TqCode} :
    (s.noteClaimError o now draws queue code).asked = s.asked ∧
      ((s.noteClaimError o now draws queue code).generation = s.generation ∨
        (s.noteClaimError o now draws queue code).stopRequested = true) ∧
      (s.stopRequested = true → (s.noteClaimError o now draws queue code).stopRequested = true) := by
  unfold noteClaimError
  dsimp only
  generalize (if code = .unavailable then o.unavailableFatalThreshold else some o.claimFatalThreshold) = threshold
  split_ifs
  · exact ⟨rfl, .inr rfl, fun _ => rfl⟩
  · exact ⟨rfl, .inl rfl, id⟩

theorem Service.claimAnswered_turns {result : ClaimResult} (loop : s.claimLoop = .claiming c) :
    Turns w s (.answered result) (s.claimAnswered o w now draws c result) := by
  unfold claimAnswered
  cases result with
  | claimed jobs =>
    dsimp only
    split_ifs
    · exact failLoop_turns
    · refine .goes _ _ (.inl ⟨rfl, rfl⟩) (.inl ?_) (fun before => ?_) (resumeSweep_placed_claimed rfl)
      · exact resumeSweep_loops.generation.trans (observeClaimResult_loops _ _).generation
      · exact resumeSweep_loops.stopRequested.trans ((observeClaimResult_loops _ _).stopRequested.trans before)
    · exact failLoop_turns
  | empty =>
    refine resumeSweep_turns loop (observeClaimResult_asked _ _) (.inl (observeClaimResult_loops _ _).generation) ?_
    exact fun before => (observeClaimResult_loops _ _).stopRequested.trans before
  | throttled => exact resumeSweep_turns loop rfl (.inl rfl) id
  | paused =>
    refine resumeSweep_turns loop (observeClaimResult_asked _ _) (.inl (observeClaimResult_loops _ _).generation) ?_
    exact fun before => (observeClaimResult_loops _ _).stopRequested.trans before
  | unknownQueue => exact failLoop_turns
  | unavailable => exact failLoop_turns

theorem Service.polled_turns {event : ServiceEvent} {reason : Wake} :
    Turns w s event (s.polled o w now draws reason) := by
  have loops : Loops s (s.polled o w now draws reason) := polled_loops
  refine .begins loops ?_
  unfold polled
  dsimp only
  split_ifs
  · exact .idle rfl
  · exact beginLoop_placed
  · exact beginLoop_placed

theorem Service.refreshRunningState_loop : (s.refreshRunningState o).claimLoop = s.claimLoop ∧
    (s.refreshRunningState o).asked = s.asked ∧ (s.refreshRunningState o).generation = s.generation ∧
    (s.refreshRunningState o).stopRequested = s.stopRequested := by
  unfold refreshRunningState
  split <;> exact ⟨rfl, rfl, rfl, rfl⟩

theorem Service.observeJob_turns {event : ServiceEvent} {ended : TaskEnd} {supervisor : Supervisor} :
    Turns w s event ({ s with supervisor := supervisor }.observeJob ended) := by
  unfold observeJob
  split
  · exact .stays rfl rfl (.inl rfl) id
  · exact .stays rfl rfl (.inr (.inl rfl)) fun _ => rfl
  · unfold observeReport
    split_ifs
    · split
      · exact .stays rfl rfl (.inl rfl) id
      · exact .stays rfl rfl (.inr (.inl rfl)) fun _ => rfl
    · exact .stays rfl rfl (.inr (.inl rfl)) fun _ => rfl
    · exact .stays rfl rfl (.inl rfl) id

theorem Service.stopOn_turns {event : ServiceEvent} (run : s.stopOn o = some u) : Turns w s event u := by
  unfold stopOn at run
  dsimp only at run
  split at run
  · split at run
    · cases run
      exact .stays rfl rfl (.inr (.inl rfl)) fun _ => rfl
    · cases run
      cases inflight : o.cancelInflightClaimOnStop with
      | true => exact .leaves rfl (.inr (.inl rfl)) fun _ => rfl
      | false => exact .stays rfl rfl (.inr (.inl rfl)) fun _ => rfl
  · split at run
    · cases run
      exact .stays rfl rfl (.inl rfl) id
    · cases run
  · split_ifs at run
    cases run
    exact .stays rfl rfl (.inl rfl) id
  · cases run
  · cases run

theorem Service.step_turns {event : ServiceEvent} (run : s.step o w now draws event = some u) : Turns w s event u := by
  cases event with
  | start =>
    simp only [step] at run
    split_ifs at run
    cases run
    exact .stays rfl rfl (.inl rfl) id
  | presence healthy shutdown =>
    have written := refreshRunningState_loop (o := o) (s := { s with presenceHealthy := healthy })
    simp only [step] at run
    generalize { s with presenceHealthy := healthy }.refreshRunningState o = after at run written
    obtain ⟨loop, asked, generation, stop⟩ := written
    split at run
    · cases run
      unfold started
      dsimp only
      split_ifs
      · exact .stays loop asked (.inl generation) fun _ => rfl
      · exact .stays loop asked (.inl generation) stop.trans
      · exact .stays loop asked (.inl generation) stop.trans
      · refine .leaves rfl (.inl ?_) fun before => ?_
        · exact refreshRunningState_loop.2.2.1.trans generation
        · exact refreshRunningState_loop.2.2.2.trans (stop.trans before)
    · cases run
      split_ifs
      · exact .stays loop asked (.inr (.inl rfl)) fun _ => rfl
      · exact .stays loop asked (.inl generation) stop.trans
    · cases run
    · cases run
  | listener connected =>
    have heard := refreshRunningState_loop (o := o) (s := if connected then
      { s with listenerAttempted := true, listenerConnected := connected }.nudge
      else { s with listenerAttempted := true, listenerConnected := connected })
    simp only [step] at run
    generalize (if connected then { s with listenerAttempted := true, listenerConnected := connected }.nudge
      else { s with listenerAttempted := true, listenerConnected := connected } : Service).refreshRunningState o = after
      at run heard
    have loop : after.claimLoop = s.claimLoop := heard.1.trans (by split_ifs <;> rfl)
    have asked : after.asked = s.asked := heard.2.1.trans (by split_ifs <;> rfl)
    have seen : Nudged s (.listener connected) after := by
      cases connected with
      | true => exact .inr (.inr ⟨rfl, heard.2.2.1⟩)
      | false => exact .inl heard.2.2.1
    have stop : after.stopRequested = s.stopRequested := heard.2.2.2.trans (by split_ifs <;> rfl)
    split at run
    · cases run
      exact .leaves rfl seen stop.trans
    · cases run
      exact .stays loop asked seen stop.trans
    · cases run
    · cases run
  | claims =>
    simp only [step] at run
    split at run
    · cases run
      exact .begins beginLoop_loops beginLoop_placed
    · cases run
  | capacity =>
    simp only [step] at run
    split at run
    · split_ifs at run
      · cases run
        exact .leaves rfl (.inl rfl) id
      · cases run
        exact .begins sweep_loops sweep_placed
    · cases run
  | answered result =>
    simp only [step] at run
    split at run
    · rename_i c loop
      cases run
      exact claimAnswered_turns loop
    · cases run
  | refused code =>
    simp only [step] at run
    split at run
    · rename_i c loop
      cases run
      exact resumeSweep_turns loop noteClaimError_asked.1 noteClaimError_asked.2.1 noteClaimError_asked.2.2
    · cases run
  | broken =>
    simp only [step] at run
    split at run
    · cases run
      exact failLoop_turns
    · cases run
  | polled reason =>
    simp only [step] at run
    split at run
    · split_ifs at run
      cases run
      exact polled_turns
    · cases run
  | rested =>
    simp only [step] at run
    split at run
    · split_ifs at run
      cases run
      refine .begins (.trans ?_ beginLoop_loops) beginLoop_placed
      exact ⟨rfl, rfl, rfl, rfl, rfl, rfl, rfl, rfl, rfl⟩
    · cases run
  | nudge =>
    cases run
    exact .stays rfl rfl (.inr (.inr ⟨rfl, rfl⟩)) id
  | job i event =>
    simp only [step] at run
    split_ifs at run
    obtain ⟨supervisor, -, rfl⟩ := Option.map_eq_some_iff.mp run
    exact .stays rfl rfl (.inl rfl) id
  | observe i =>
    simp only [step] at run
    split at run
    · split at run
      · split_ifs at run
        cases run
        exact observeJob_turns
      · cases run
    · cases run
  | stop cancel =>
    simp only [step] at run
    split_ifs at run
    · cases run
      exact .stays rfl rfl (.inl rfl) id
    · cases run
      exact .stays rfl rfl (.inl rfl) id
    · cases run
      exact .stays rfl rfl (.inl rfl) id
  | stopping => exact stopOn_turns run
  | deadline =>
    simp only [step] at run
    split_ifs at run
    cases run
    exact .stays rfl rfl (.inl rfl) id
  | stopped =>
    simp only [step] at run
    split_ifs at run
    cases run
    exact .stays rfl rfl (.inl rfl) id

end Turns

end Worker
end Taskq
