import Taskq.Worker.Turns

/-! The nudges of the worker service: one that arrives between the claims of a sweep and its end is not seen before the
next poll; any other ends the wait that follows. -/
namespace Taskq
namespace Worker

variable {o : ServiceOptions} {w : Options} {now : ℚ} {draws : Draws} {s u : Service} {event : ServiceEvent}

/-- A nudge has arrived since the first claim of a sweep that claimed nothing. -/
def Service.nudged (s : Service) : Prop := ∃ first, s.asked = some first ∧ first < s.generation

/-- The service waits for a nudge or for the deadline of the poll. -/
def Service.waits (s : Service) (generation : ℕ) (deadline : ℚ) : Prop :=
  s.claimLoop = .polling generation deadline false ∧ s.stopRequested = false

/-- The claim loop leaves its wait for a nudge at once: it begins a sweep, or does so at the end of the quiet window. -/
def Service.wakes (o : ServiceOptions) (w : Options) (s : Service) : Prop :=
  ∀ now draws, ∃ u, s.step o w now draws (.polled .nudge) = some u ∧
    (u = { s with idlePolls := 0, lastWake := .nudge }.beginLoop o w now draws ∨
      now < s.nudgeQuietUntil ∧ u = { s with idlePolls := 0, claimLoop := .deferring s.nudgeQuietUntil } ∧
        ∀ later draws, s.nudgeQuietUntil ≤ later →
          u.step o w later draws .rested = some ({ u with lastWake := .nudge }.beginLoop o w later draws))

/-- No nudge arrives while a claim is in flight. -/
def quietClaims (s : Service) (event : ServiceEvent) : Prop :=
  event.nudges = true → ∀ c, s.claimLoop ≠ .claiming c

section Nudges

/-- The wait for a nudge is over as soon as there were more nudges than it had seen. -/
theorem Service.wakes_iff {generation : ℕ} {deadline : ℚ} (waits : s.waits generation deadline) :
    s.wakes o w ↔ s.generation ≠ generation := by
  obtain ⟨loop, running⟩ := waits
  constructor
  · intro wakes
    obtain ⟨u, step, -⟩ := wakes 0 ⟨0, 0⟩
    simp only [Service.step, loop] at step
    split_ifs at step with due
    simpa [Service.due] using due
  · intro changed now draws
    have due : s.due now generation deadline false .nudge = true := by simp [Service.due, changed]
    refine ⟨s.polled o w now draws .nudge, by simp [Service.step, loop, due], ?_⟩
    unfold Service.polled
    rw [if_pos rfl]
    dsimp only
    split_ifs with quiet
    · refine .inr ⟨quiet.1, rfl, fun later draws ended => ?_⟩
      simp [Service.step, ended]
    · exact .inl rfl

/-- The nudges that the claim loop has seen, when none arrives while a claim is in flight. -/
structure Seen (s : Service) : Prop where
  claims : ∀ c, s.claimLoop = .claiming c → c.claimed = false →
    s.stopRequested = true ∨ s.asked = some s.generation
  polls : ∀ g d i first, s.claimLoop = .polling g d i → s.asked = some first → s.stopRequested = true ∨ first = g

theorem Seen.step (seen : Seen s) (quiet : quietClaims s event) (run : s.step o w now draws event = some u) :
    Seen u := by
  cases Service.step_turns run with
  | stays loop asked nudged stops =>
    refine ⟨fun c claiming unclaimed => ?_, fun g d i first polling some' => ?_⟩
    · have here := loop.symm.trans claiming
      obtain same | stop | ⟨nudge, -⟩ := nudged
      · rw [asked, same]
        exact (seen.claims c here unclaimed).imp_left stops
      · exact .inl stop
      · exact absurd here (quiet nudge c)
    · exact (seen.polls g d i first (loop.symm.trans polling) (asked.symm.trans some')).imp_left stops
  | goes asked waited fresh nudged stops placed =>
    have known : (u.stopRequested = true ∨ asked = some u.generation) ∧
        (u.stopRequested = true ∨ waited = none ∨ waited = some u.generation) := by
      obtain ⟨rfl, rfl⟩ | ⟨⟨c, claiming, unclaimed⟩, rfl, rfl, same | stop⟩ := fresh
      · exact ⟨.inr rfl, .inr (.inl rfl)⟩
      · have before := (seen.claims c claiming unclaimed).imp_left stops
        rw [← same] at before
        exact ⟨before, before.imp_right .inr⟩
      · exact ⟨.inl stop, .inl stop⟩
    refine ⟨fun c claiming unclaimed => ?_, fun g d i first polling some' => ?_⟩
    · rw [placed.asks c claiming unclaimed]
      exact known.1
    · obtain ⟨rfl, same⟩ := placed.polls g d i polling
      rw [same] at some'
      subst some'
      exact known.2.imp_right fun now => now.elim (fun none => nomatch none) Option.some.inj

theorem Seen.constructed (o : ServiceOptions) : Seen (.constructed o) :=
  ⟨fun _ loop => (nomatch loop), fun _ _ _ _ loop => (nomatch loop)⟩

/-- A sweep does not know nudges that are still to come. -/
def Past (s : Service) : Prop :=
  ∀ c, s.claimLoop = .claiming c → c.claimed = false →
    s.stopRequested = true ∨ ∃ first, s.asked = some first ∧ first ≤ s.generation

theorem Past.step (past : Past s) (run : s.step o w now draws event = some u) : Past u := by
  have later (nudged : Nudged s event u) : u.stopRequested = true ∨ s.generation ≤ u.generation := by
    obtain same | stop | ⟨-, more⟩ := nudged
    · exact .inr same.ge
    · exact .inl stop
    · exact .inr (more ▸ Nat.le_succ _)
  intro c claiming unclaimed
  cases Service.step_turns run with
  | stays loop asked nudged stops =>
    obtain stop | ⟨first, some', before⟩ := past c (loop.symm.trans claiming) unclaimed
    · exact .inl (stops stop)
    · exact (later nudged).imp_right fun more => ⟨first, asked.trans some', before.trans more⟩
  | goes asked waited fresh nudged stops placed =>
    rw [placed.asks c claiming unclaimed]
    obtain ⟨rfl, -⟩ | ⟨⟨c', claiming', unclaimed'⟩, rfl, -, -⟩ := fresh
    · exact .inr ⟨_, rfl, le_rfl⟩
    · obtain stop | ⟨first, some', before⟩ := past c' claiming' unclaimed'
      · exact .inl (stops stop)
      · exact (later nudged).imp_right fun more => ⟨first, some', before.trans more⟩

end Nudges

/-- In every run in which no nudge arrives while a claim is in flight, a nudge that arrived after the first claim of a
sweep that claimed nothing ends the wait for the next poll. When a sweep ends that claimed nothing, a nudge does so
exactly if none has arrived since its first claim. -/
theorem nudge_ends_wait :
    (Service.Run o w quietClaims (.constructed o) s →
      ∀ g d, s.waits g d → s.nudged → s.wakes o w) ∧
    ∀ allowed, Service.Run o w allowed (.constructed o) s →
      ∀ c g d, s.claimLoop = .claiming c → s.step o w now draws event = some u → u.waits g d → u.asked ≠ none →
        ((u.nudged → u.wakes o w) ↔ s.asked = some s.generation) := by
  constructor
  · intro run g d waits nudged
    have seen : Seen s := run.induction (.constructed o) fun seen quiet step => seen.step quiet step
    obtain ⟨first, some', before⟩ := nudged
    rw [Service.wakes_iff waits]
    obtain stop | rfl := seen.polls g d false first waits.1 some'
    · exact nomatch stop.symm.trans waits.2
    · exact before.ne'
  · intro allowed run c g d claiming step waits claimless
    have past : Past s := run.induction (fun c loop => nomatch loop) fun past _ step => past.step step
    rw [Service.wakes_iff waits]
    cases Service.step_turns step with
    | stays loop => exact nomatch waits.1.symm.trans (loop.trans claiming)
    | goes asked waited fresh nudged stops placed =>
      obtain ⟨rfl, same⟩ := placed.polls g d false waits.1
      obtain ⟨-, rfl⟩ | ⟨⟨c', claiming', unclaimed⟩, -, rfl, still⟩ := fresh
      · exact absurd same claimless
      have generation : u.generation = s.generation :=
        still.resolve_right fun stop => nomatch stop.symm.trans waits.2
      have running : s.stopRequested ≠ true := fun stop => nomatch (stops stop).symm.trans waits.2
      obtain ⟨first, some', before⟩ := (past c' claiming' unclaimed).resolve_left running
      have unseen : u.nudged ↔ first ≠ s.generation := by
        rw [Service.nudged, same, some', generation]
        exact ⟨fun ⟨_, same, later⟩ => Option.some.inj same ▸ later.ne, fun other => ⟨first, rfl, before.lt_of_ne other⟩⟩
      rw [unseen, some', Option.some.injEq]
      exact ⟨fun wakes => not_not.mp fun other => wakes other rfl, fun seen other => absurd seen other⟩

section Witnesses

/-- A service with one queue and no listener makes its first claim. -/
def firstClaim : List (ℚ × ServiceEvent) := [(0, .start), (0, .presence true false), (0, .claims)]

/-- The generation under which the service polls after an empty claim. -/
def ClaimLoop.idleSince : ClaimLoop → Option ℕ
  | .polling g _ false => some g
  | _ => none

theorem ClaimLoop.idleSince_eq_some {l : ClaimLoop} {g : ℕ} (idle : l.idleSince = some g) : ∃ d, l = .polling g d false := by
  unfold idleSince at idle
  split at idle
  · cases idle
    exact ⟨_, rfl⟩
  · cases idle

/-- The claim finds nothing; a nudge that arrives after that ends the wait. -/
theorem nudge_ends_wait_after : ∃ (o : ServiceOptions) (w : Options) (s : Service), s.nudged ∧ s.wakes o w := by
  let o : ServiceOptions := { queues := ["q"], listen := false }
  have played : ((Service.constructed o).plays o {} (firstClaim ++ [(0, .answered .empty)])).any (fun t =>
      decide (t.asked = some 0) && decide (t.generation = 0) && !t.stopRequested &&
        t.claimLoop.idleSince.isSome) = true := by decide +kernel
  obtain ⟨t, reached, ends⟩ := (Option.any_eq_true _ _).mp played
  simp only [Bool.and_eq_true, decide_eq_true_eq, Bool.not_eq_true'] at ends
  obtain ⟨⟨⟨asked, generation⟩, running⟩, polls⟩ := ends
  obtain ⟨g, idle⟩ := Option.isSome_iff_exists.mp polls
  obtain ⟨d, loop⟩ := ClaimLoop.idleSince_eq_some idle
  have run : Service.Run o {} quietClaims (.constructed o) t := by
    refine Service.Run.plays .start (fun t event member nudges => ?_) reached
    obtain ⟨now, member⟩ := member
    simp only [firstClaim, List.cons_append, List.nil_append, List.mem_cons, List.not_mem_nil, Prod.mk.injEq,
      or_false] at member
    obtain ⟨-, rfl⟩ | ⟨-, rfl⟩ | ⟨-, rfl⟩ | ⟨-, rfl⟩ := member <;> cases nudges
  have quiet : quietClaims t .nudge := by
    intro _ c claiming
    cases claiming.symm.trans loop
  have nudged : t.nudge.nudged := ⟨0, asked, by simp [Service.nudge, generation]⟩
  exact ⟨o, {}, t.nudge, nudged, (@nudge_ends_wait o {} 0 ⟨0, 0⟩ t.nudge t .nudge).1
    (.step run quiet (rfl : t.step o {} 0 ⟨0, 0⟩ .nudge = _)) g d ⟨loop, running⟩ nudged⟩

/-- A nudge that arrives while the claim is in flight does not: the service waits for its deadline. -/
theorem nudge_ends_wait_inflight : ∃ (o : ServiceOptions) (w : Options) (s : Service) (g : ℕ) (d : ℚ),
    Service.Run o w (fun _ _ => True) (.constructed o) s ∧ s.waits g d ∧ s.nudged ∧ ¬s.wakes o w := by
  let o : ServiceOptions := { queues := ["q"], listen := false }
  have played : ((Service.constructed o).plays o {} (firstClaim ++ [(0, .nudge), (0, .answered .empty)])).any (fun s =>
      decide (s.asked = some 0) && decide (s.generation = 1) && !s.stopRequested &&
        decide (s.claimLoop.idleSince = some 1)) = true := by decide +kernel
  obtain ⟨s, reached, ends⟩ := (Option.any_eq_true _ _).mp played
  simp only [Bool.and_eq_true, decide_eq_true_eq, Bool.not_eq_true'] at ends
  obtain ⟨⟨⟨asked, generation⟩, running⟩, polls⟩ := ends
  obtain ⟨d, loop⟩ := ClaimLoop.idleSince_eq_some polls
  refine ⟨o, {}, s, 1, d, Service.Run.plays .start (fun _ _ _ => trivial) reached, ⟨loop, running⟩, ⟨0, asked, ?_⟩, ?_⟩
  · simp [generation]
  · rw [Service.wakes_iff ⟨loop, running⟩]
    simp [generation]

end Witnesses

end Worker
end Taskq
