import Taskq.Worker.Heartbeat
import Mathlib.Tactic.Linarith

/-! The heartbeat loop gives its job up before the lease can be reclaimed, and not earlier; the newest checkpoint waits
until a heartbeat has flushed it. -/
namespace Taskq
namespace Worker

variable {P : Type} {leaseSeconds : ℤ} {claimedAt now : ℚ} {s u : HeartbeatLoop P} {event : BeatEvent P}

/-- Any number of steps of the loop. -/
inductive HeartbeatLoop.Run (s : HeartbeatLoop P) : HeartbeatLoop P → Prop
  | start : HeartbeatLoop.Run s s
  | step {t u : HeartbeatLoop P} {now : ℚ} {event : BeatEvent P} (run : HeartbeatLoop.Run s t)
      (taken : t.step now event = some u) : HeartbeatLoop.Run s u

section Numbers

theorem heartbeatInterval_lt (short : 15 ≤ leaseSeconds) : heartbeatInterval leaseSeconds < leaseBudget leaseSeconds := by
  have positive : (15 : ℚ) ≤ leaseSeconds := by exact_mod_cast short
  have pace : heartbeatInterval leaseSeconds ≤ leaseSeconds / 3 := min_le_left _ _
  have margin : min 60 ((leaseSeconds : ℚ) / 4) ≤ leaseSeconds / 4 := min_le_right _ _
  unfold leaseBudget
  linarith

theorem heartbeatInterval_nonneg (short : 15 ≤ leaseSeconds) : 0 ≤ heartbeatInterval leaseSeconds := by
  have positive : (15 : ℚ) ≤ leaseSeconds := by exact_mod_cast short
  exact le_min (by linarith) (by norm_num)

end Numbers

section Budget

/-- That is within the budget since the last confirmed heartbeat, or the timer cancelled the last call within it. -/
def HeartbeatLoop.Punctual (s : HeartbeatLoop P) (at' : ℚ) : Prop :=
  at' ≤ s.lastOk + s.budget ∨ ∃ fired, s.cancelledAt = some fired ∧ fired ≤ s.lastOk + s.budget

/-- The loop is in time: the timer of a call covers the budget since the last confirmed heartbeat, and after a
confirmation no timer goes beyond it. -/
structure Timely (s : HeartbeatLoop P) : Prop where
  lease : 15 ≤ s.leaseSeconds
  past : s.lastOk ≤ s.clock
  ahead : ∀ due, s.beat.due = some due → s.clock ≤ due
  attempted : s.confirmed = true → s.attempted = true
  sleeps : ∀ wakes, s.beat = .sleeping wakes → s.confirmed = true → wakes ≤ s.lastOk + s.budget
  calls : ∀ sent expires pending, s.beat = .calling sent expires pending →
    s.attempted = true ∧ s.lastOk ≤ sent ∧ sent ≤ s.clock ∧ expires ≤ sent + s.budget ∧
      s.lastOk + s.budget ≤ expires ∧ (s.confirmed = true → expires ≤ s.lastOk + s.budget)
  cancels : ∀ fired, s.beat = .cancelling fired →
    s.cancelledAt = some fired ∧ s.lastOk + s.budget ≤ fired ∧ fired ≤ s.clock ∧
      (s.confirmed = true → fired ≤ s.lastOk + s.budget)
  lost : s.confirmed = true → ∀ at', s.lostAt = some at' → s.Punctual at'

/-- Time has passed, but not beyond a timer. -/
structure Passes (s : HeartbeatLoop P) (now : ℚ) : Prop where
  later : s.clock ≤ now
  due : ∀ due, s.beat.due = some due → now ≤ due

theorem HeartbeatLoop.step_passes (taken : s.step now event = some u) : Passes s now := by
  unfold step at taken
  split_ifs at taken with late
  rw [not_or, not_lt, Bool.not_eq_true] at late
  refine ⟨late.1, fun due here => ?_⟩
  simpa [here] using late.2

theorem Timely.clock (timely : Timely s) (passes : Passes s now) : Timely { s with clock := now } where
  lease := timely.lease
  past := timely.past.trans passes.later
  ahead := passes.due
  attempted := timely.attempted
  sleeps := timely.sleeps
  calls := fun sent expires pending here =>
    ⟨(timely.calls sent expires pending here).1, (timely.calls sent expires pending here).2.1,
      (timely.calls sent expires pending here).2.2.1.trans passes.later, (timely.calls sent expires pending here).2.2.2⟩
  cancels := fun fired here =>
    ⟨(timely.cancels fired here).1, (timely.cancels fired here).2.1,
      (timely.cancels fired here).2.2.1.trans passes.later, (timely.cancels fired here).2.2.2⟩
  lost := timely.lost

/-- A loop that is declared lost in time is in time. -/
theorem Timely.lose (timely : Timely s) (within : s.confirmed = true → s.Punctual now) :
    Timely (s.lose now) where
  lease := timely.lease
  past := timely.past
  ahead := fun due here => nomatch here
  attempted := timely.attempted
  sleeps := fun wakes here => nomatch here
  calls := fun sent expires pending here => nomatch here
  cancels := fun fired here => nomatch here
  lost := fun confirmed at' here => by cases here; exact within confirmed

theorem Timely.head (timely : Timely s) (now' : s.clock = now)
    (within : s.confirmed = true → now ≤ s.lastOk + s.budget) : Timely (s.head now) := by
  have past : s.lastOk ≤ now := now' ▸ timely.past
  have pace : s.interval < s.budget := heartbeatInterval_lt timely.lease
  have nonneg : 0 ≤ s.interval := heartbeatInterval_nonneg timely.lease
  unfold HeartbeatLoop.head
  dsimp only
  split_ifs with spent tried
  · exact timely.lose fun confirmed => .inl (within confirmed)
  · refine ⟨timely.lease, timely.past, fun due here => ?_, fun _ => rfl, fun wakes here => (nomatch here),
      fun sent expires pending here => ?_, fun fired here => (nomatch here), timely.lost⟩
    · cases here
      exact now'.le.trans (le_add_of_nonneg_right (le_max_left _ _))
    cases here
    have left : 0 < s.lastOk + s.budget - now := not_le.mp fun none => spent ⟨tried, none⟩
    rw [max_eq_right left.le]
    refine ⟨rfl, past, now'.ge, ?_, ?_, fun _ => ?_⟩
    · change _ ≤ now + s.budget
      linarith
    · change s.lastOk + s.budget ≤ _
      linarith
    · change _ ≤ s.lastOk + s.budget
      linarith
  · refine ⟨timely.lease, timely.past, fun due here => ?_, fun _ => rfl, fun wakes here => (nomatch here),
      fun sent expires pending here => ?_, fun fired here => (nomatch here), timely.lost⟩
    · cases here
      exact now'.le.trans (le_add_of_nonneg_right (le_max_left _ _))
    cases here
    have first : s.confirmed ≠ true := fun confirmed => tried (timely.attempted confirmed)
    have longer : s.lastOk + s.budget - now ≤ max (s.lastOk + s.budget - now) s.interval := le_max_left _ _
    have shorter : max (s.lastOk + s.budget - now) s.interval ≤ s.budget := max_le (by linarith) pace.le
    rw [max_eq_right (nonneg.trans (le_max_right _ _))]
    refine ⟨rfl, past, now'.ge, ?_, ?_, fun confirmed => absurd confirmed first⟩
    · change _ ≤ now + s.budget
      linarith
    · change s.lastOk + s.budget ≤ _
      linarith

theorem Timely.failed {fault : Fault} (timely : Timely s) (now' : s.clock = now)
    (within : s.confirmed = true → now ≤ s.lastOk + s.budget) : Timely (s.failed now fault) := by
  unfold HeartbeatLoop.failed
  dsimp only
  split_ifs
  · refine ⟨timely.lease, timely.past, fun due here => ?_, timely.attempted, fun wakes here confirmed => ?_,
      fun sent expires pending here => (nomatch here), fun fired here => (nomatch here), timely.lost⟩
    · cases here
      exact now'.le.trans (le_add_of_nonneg_right (le_max_left _ _))
    cases here
    have left := within confirmed
    have capped : max 0 (min (min (1 / 4 * 2 ^ min (s.consecutiveFailures + 1 - 1) 10) s.interval)
        (s.lastOk + s.budget - now)) ≤ s.lastOk + s.budget - now := max_le (by linarith) (min_le_right _ _)
    change _ ≤ s.lastOk + s.budget
    linarith
  · have lost := timely.lose fun confirmed => .inl (within confirmed)
    exact ⟨lost.lease, lost.past, lost.ahead, lost.attempted, lost.sleeps, lost.calls, lost.cancels, lost.lost⟩

theorem Timely.answered {sent expires : ℚ} {pending : Option (ℕ × P)} {ok cancelRequested : Bool} (timely : Timely s)
    (calling : s.beat = .calling sent expires pending) (passes : Passes s now) (fresh : s.lostAt = none) :
    Timely (s.answered now sent pending ok cancelRequested) := by
  obtain ⟨attempted, -, before, short, -, within⟩ := timely.calls sent expires pending calling
  have due : now ≤ expires := passes.due expires (by rw [calling]; rfl)
  have pace : s.interval < s.budget := heartbeatInterval_lt timely.lease
  unfold HeartbeatLoop.answered
  split_ifs
  · refine ⟨timely.lease, before, fun due here => ?_, fun _ => attempted, fun wakes here _ => ?_,
      fun sent expires pending here => (nomatch here), fun fired here => (nomatch here),
      fun _ at' here => nomatch fresh.symm.trans here⟩
    · cases here
      exact passes.later.trans (le_add_of_nonneg_right (le_max_left _ _))
    cases here
    change now + max 0 (s.interval - (now - sent)) ≤ sent + s.budget
    rw [← le_sub_iff_add_le']
    exact max_le (by linarith) (by linarith)
  · exact timely.lose fun confirmed => .inl (due.trans (within confirmed))

theorem Timely.within {due : ℚ} (timely : Timely s) (confirmed : s.confirmed = true) (waits : s.beat.due = some due) :
    due ≤ s.lastOk + s.budget := by
  cases beat : s.beat with
  | sleeping wakes =>
    have same : wakes = due := by simpa [beat, Beat.due] using waits
    exact same ▸ timely.sleeps wakes beat confirmed
  | calling sent expires pending =>
    have same : expires = due := by simpa [beat, Beat.due] using waits
    exact same ▸ (timely.calls sent expires pending beat).2.2.2.2.2 confirmed
  | cancelling fired => rw [beat] at waits; cases waits
  | lost => rw [beat] at waits; cases waits
  | ended => rw [beat] at waits; cases waits

/-- The loop has declared nothing while it goes on. -/
def Undeclared (s : HeartbeatLoop P) : Prop := s.beat.due.isSome = true → s.lostAt = none

/-- A step of the loop, with the call or the sleep that it ends. -/
theorem HeartbeatLoop.step_cases (taken : s.step now event = some u) :
    (∃ wakes, event = .wake ∧ s.beat = .sleeping wakes ∧ now = wakes ∧ u = { s with clock := now }.head now) ∨
    (∃ sent expires pending ok cancelRequested, event = .answered ok cancelRequested ∧
      s.beat = .calling sent expires pending ∧ u = { s with clock := now }.answered now sent pending ok cancelRequested) ∨
    (∃ sent expires pending fault, event = .failed fault ∧ s.beat = .calling sent expires pending ∧
      u = { s with clock := now }.failed now fault) ∨
    (∃ sent pending, event = .expired ∧ s.beat = .calling sent now pending ∧
      u = { s with clock := now, beat := .cancelling now, cancelledAt := some now }) ∨
    (∃ fired, event = .unwound ∧ s.beat = .cancelling fired ∧ u = { s with clock := now }.lose now) ∨
    (∃ sent expires pending, event = .stray ∧ s.beat = .calling sent expires pending ∧
      u = { s with clock := now }.lose now) ∨
    (∃ progress, event = .stage progress ∧ u = { s with
      clock := now
      context := s.context.stage progress
      staged := s.staged ++ [((s.context.stage progress).generation, progress)] }) ∨
    (event = .settled ∧ u = { s with clock := now, beat := match s.beat with
      | .lost => .lost
      | _ => .ended }) := by
  unfold step at taken
  split_ifs at taken
  dsimp only at taken
  split at taken
  · rename_i wakes sleeping
    split_ifs at taken with due
    cases taken
    exact .inl ⟨wakes, rfl, sleeping, due, rfl⟩
  · rename_i ok cancelRequested sent expires pending calling
    cases taken
    exact .inr (.inl ⟨sent, expires, pending, ok, cancelRequested, rfl, calling, rfl⟩)
  · rename_i fault sent expires pending calling
    cases taken
    exact .inr (.inr (.inl ⟨sent, expires, pending, fault, rfl, calling, rfl⟩))
  · rename_i sent expires pending calling
    split_ifs at taken with due
    cases taken
    exact .inr (.inr (.inr (.inl ⟨sent, pending, rfl, due ▸ calling, rfl⟩)))
  · rename_i fired cancelling
    cases taken
    exact .inr (.inr (.inr (.inr (.inl ⟨fired, rfl, cancelling, rfl⟩))))
  · rename_i sent expires pending calling
    cases taken
    exact .inr (.inr (.inr (.inr (.inr (.inl ⟨sent, expires, pending, rfl, calling, rfl⟩)))))
  · rename_i progress
    cases taken
    exact .inr (.inr (.inr (.inr (.inr (.inr (.inl ⟨progress, rfl, rfl⟩))))))
  · cases taken
    exact .inr (.inr (.inr (.inr (.inr (.inr (.inr ⟨rfl, rfl⟩))))))
  · cases taken

theorem Undeclared.step (undeclared : Undeclared s) (taken : s.step now event = some u) : Undeclared u := by
  obtain ⟨wakes, -, sleeping, -, rfl⟩ | ⟨sent, expires, pending, ok, cancelRequested, -, calling, rfl⟩ |
    ⟨sent, expires, pending, fault, -, calling, rfl⟩ | ⟨sent, pending, -, calling, rfl⟩ |
    ⟨fired, -, cancelling, rfl⟩ | ⟨sent, expires, pending, -, calling, rfl⟩ | ⟨progress, -, rfl⟩ | ⟨-, rfl⟩ :=
    HeartbeatLoop.step_cases taken
  · have none := undeclared (by rw [sleeping]; rfl)
    unfold HeartbeatLoop.head
    dsimp only
    split_ifs
    · exact fun here => nomatch here
    · exact fun _ => none
    · exact fun _ => none
  · have none := undeclared (by rw [calling]; rfl)
    unfold HeartbeatLoop.answered
    split_ifs
    · exact fun _ => none
    · exact fun here => nomatch here
  · have none := undeclared (by rw [calling]; rfl)
    unfold HeartbeatLoop.failed
    split_ifs
    · exact fun _ => none
    · exact fun here => nomatch here
  · exact fun here => nomatch here
  · exact fun here => nomatch here
  · exact fun here => nomatch here
  · exact undeclared
  · intro here
    dsimp only at here
    split at here <;> cases here

theorem Timely.step (timely : Timely s) (undeclared : Undeclared s) (taken : s.step now event = some u) : Timely u := by
  have passes := HeartbeatLoop.step_passes taken
  have timed := timely.clock passes
  obtain ⟨wakes, -, sleeping, rfl, rfl⟩ | ⟨sent, expires, pending, ok, cancelRequested, -, calling, rfl⟩ |
    ⟨sent, expires, pending, fault, -, calling, rfl⟩ | ⟨sent, pending, -, calling, rfl⟩ |
    ⟨fired, -, cancelling, rfl⟩ | ⟨sent, expires, pending, -, calling, rfl⟩ | ⟨progress, -, rfl⟩ | ⟨-, rfl⟩ :=
    HeartbeatLoop.step_cases taken
  · exact timed.head rfl fun confirmed => timely.sleeps now sleeping confirmed
  · have same : Passes { s with clock := now } now := ⟨le_rfl, passes.due⟩
    exact timed.answered calling same (undeclared (by rw [calling]; rfl))
  · have due : now ≤ expires := passes.due expires (by rw [calling]; rfl)
    exact timed.failed rfl fun confirmed => due.trans ((timely.calls sent expires pending calling).2.2.2.2.2 confirmed)
  · obtain ⟨-, -, -, -, after, within⟩ := timely.calls sent now pending calling
    have none := undeclared (by rw [calling]; rfl)
    refine ⟨timed.lease, timed.past, fun due here => (nomatch here), timed.attempted, fun wakes here => (nomatch here),
      fun sent expires pending here => (nomatch here), fun fired here => ?_, fun _ at' here => nomatch none.symm.trans here⟩
    cases here
    exact ⟨rfl, after, le_rfl, within⟩
  · obtain ⟨at', -, -, within⟩ := timely.cancels fired cancelling
    exact timed.lose fun confirmed => .inr ⟨fired, at', within confirmed⟩
  · have due : now ≤ expires := passes.due expires (by rw [calling]; rfl)
    exact timed.lose fun confirmed => .inl (due.trans ((timely.calls sent expires pending calling).2.2.2.2.2 confirmed))
  · exact ⟨timed.lease, timed.past, timed.ahead, timed.attempted, timed.sleeps, timed.calls, timed.cancels, timed.lost⟩
  · refine ⟨timed.lease, timed.past, fun due here => ?_, timed.attempted, fun wakes here => ?_,
      fun sent expires pending here => ?_, fun fired here => ?_, timed.lost⟩
    · dsimp only at here
      split at here <;> cases here
    · dsimp only at here
      split at here <;> cases here
    · dsimp only at here
      split at here <;> cases here
    · dsimp only at here
      split at here <;> cases here

end Budget

section Checkpoints

variable {g : ℕ} {p : P}

/-- Where the staged checkpoints are: the newest one is pending until a confirmed heartbeat carried it. -/
structure Flushes (s : HeartbeatLoop P) : Prop where
  ahead : ∀ g p, (g, p) ∈ s.staged → g ≤ s.context.generation
  unique : ∀ p p', (s.context.generation, p) ∈ s.staged → (s.context.generation, p') ∈ s.staged → p = p'
  there : s.context.generation = 0 ∨ ∃ p, (s.context.generation, p) ∈ s.staged
  pending : ∀ p, s.context.pending = some p → (s.context.generation, p) ∈ s.staged
  newest : ∀ p, (s.context.generation, p) ∈ s.staged →
    s.context.pending = some p ∨ (s.context.generation, p) ∈ s.flushed
  sent : ∀ sent expires g p, s.beat = .calling sent expires (some (g, p)) →
    (g, p) ∈ s.carried ∧ g ≤ s.context.generation ∧ (g = s.context.generation → s.context.pending = some p)
  carried : ∀ entry ∈ s.flushed, entry ∈ s.carried

/-- The checkpoints are as they were, and no call with one is begun. -/
theorem Flushes.same (flushes : Flushes s) (context : u.context = s.context) (staged : u.staged = s.staged)
    (flushed : u.flushed = s.flushed) (carried : u.carried = s.carried)
    (beat : ∀ sent expires g p, u.beat = .calling sent expires (some (g, p)) → u.beat = s.beat) : Flushes u := by
  refine ⟨?_, ?_, ?_, ?_, ?_, fun sent expires g p here => ?_, ?_⟩
  · rw [staged, context]
    exact flushes.ahead
  · rw [staged, context]
    exact flushes.unique
  · rw [staged, context]
    exact flushes.there
  · rw [staged, context]
    exact flushes.pending
  · rw [staged, context, flushed]
    exact flushes.newest
  · rw [carried, context]
    exact flushes.sent sent expires g p ((beat sent expires g p here).symm.trans here)
  · rw [flushed, carried]
    exact flushes.carried

theorem Flushes.head (flushes : Flushes s) : Flushes (s.head now) := by
  unfold HeartbeatLoop.head
  dsimp only
  have calls (remaining : ℚ) : Flushes { s with
      attempted := true
      beat := .calling now remaining s.context.snapshot
      carried := s.carried ++ s.context.snapshot.toList } := by
    refine ⟨flushes.ahead, flushes.unique, flushes.there, flushes.pending, flushes.newest,
      fun sent expires g p here => ?_, fun entry member => List.mem_append_left _ (flushes.carried entry member)⟩
    cases snapshot : s.context.snapshot with
    | none =>
      rw [snapshot] at here
      cases here
    | some entry =>
      rw [snapshot] at here
      cases here
      obtain ⟨progress, pending, same⟩ := Option.map_eq_some_iff.mp snapshot
      cases same
      exact ⟨by simp, le_rfl, fun _ => pending⟩
  split_ifs
  · exact flushes.same rfl rfl rfl rfl fun _ _ _ _ here => nomatch here
  · exact calls _
  · exact calls _

theorem Flushes.answered {sent expires : ℚ} {pending : Option (ℕ × P)} {ok cancelRequested : Bool}
    (flushes : Flushes s) (calling : s.beat = .calling sent expires pending) :
    Flushes (s.answered now sent pending ok cancelRequested) := by
  unfold HeartbeatLoop.answered
  split_ifs
  · cases pending with
    | none =>
      refine flushes.same rfl rfl ?_ rfl fun _ _ _ _ here => nomatch here
      exact List.append_nil _
    | some entry =>
      obtain ⟨g, p⟩ := entry
      obtain ⟨sentOut, -, current⟩ := flushes.sent sent expires g p calling
      have generation : (s.context.ack g).generation = s.context.generation := by
        unfold Checkpoints.ack
        split_ifs <;> rfl
      refine ⟨?_, ?_, ?_, fun p' some' => ?_, fun p' member => ?_, fun sent expires g p here => (nomatch here),
        fun entry member => ?_⟩
      · simpa only [generation] using flushes.ahead
      · simpa only [generation] using flushes.unique
      · simpa only [generation] using flushes.there
      · change (s.context.ack g).pending = some p' at some'
        change ((s.context.ack g).generation, p') ∈ s.staged
        rw [generation]
        unfold Checkpoints.ack at some'
        split_ifs at some'
        exact flushes.pending p' some'
      · change ((s.context.ack g).generation, p') ∈ s.staged at member
        change (s.context.ack g).pending = some p' ∨ ((s.context.ack g).generation, p') ∈ s.flushed ++ [(g, p)]
        rw [generation] at member ⊢
        unfold Checkpoints.ack
        split_ifs with same
        · have here := flushes.pending p (current same)
          rw [flushes.unique p' p member here, ← same]
          exact .inr (List.mem_append_right _ (by simp))
        · exact (flushes.newest p' member).imp_right (List.mem_append_left _)
      · obtain before | now' := List.mem_append.mp member
        · exact flushes.carried entry before
        · simp only [Option.toList_some, List.mem_singleton] at now'
          exact now' ▸ sentOut
  · exact flushes.same rfl rfl rfl rfl fun _ _ _ _ here => nomatch here

theorem Flushes.stage (flushes : Flushes s) (progress : P) : Flushes { s with
    context := s.context.stage progress
    staged := s.staged ++ [((s.context.stage progress).generation, progress)] } := by
  have last (p : P) (member : (s.context.generation + 1, p) ∈ s.staged ++ [(s.context.generation + 1, progress)]) :
      p = progress := by
    obtain before | now' := List.mem_append.mp member
    · exact absurd (flushes.ahead _ _ before) (by omega)
    · cases List.mem_singleton.mp now'
      rfl
  refine ⟨fun g p member => ?_, fun p p' first second => (last p first).trans (last p' second).symm,
    .inr ⟨progress, by simp⟩, fun p pending => ?_, fun p member => .inl (congrArg some (last p member).symm),
    fun sent expires g p here => ?_, flushes.carried⟩
  · obtain before | now' := List.mem_append.mp member
    · exact (flushes.ahead g p before).trans (Nat.le_succ _)
    · cases List.mem_singleton.mp now'
      exact le_rfl
  · cases pending
    exact List.mem_append_right _ (List.mem_singleton.mpr rfl)
  · obtain ⟨carried, older, -⟩ := flushes.sent sent expires g p here
    exact ⟨carried, older.trans (Nat.le_succ _), fun same => absurd (same ▸ older) (by simp [Checkpoints.stage])⟩

theorem Flushes.step (flushes : Flushes s) (taken : s.step now event = some u) : Flushes u := by
  have timed : Flushes { s with clock := now } := flushes.same rfl rfl rfl rfl fun _ _ _ _ _ => rfl
  obtain ⟨wakes, -, sleeping, -, rfl⟩ | ⟨sent, expires, pending, ok, cancelRequested, -, calling, rfl⟩ |
    ⟨sent, expires, pending, fault, -, calling, rfl⟩ | ⟨sent, pending, -, calling, rfl⟩ |
    ⟨fired, -, cancelling, rfl⟩ | ⟨sent, expires, pending, -, calling, rfl⟩ | ⟨progress, -, rfl⟩ | ⟨-, rfl⟩ :=
    HeartbeatLoop.step_cases taken
  · exact timed.head
  · exact timed.answered calling
  · unfold HeartbeatLoop.failed
    split_ifs
    · exact timed.same rfl rfl rfl rfl fun _ _ _ _ here => nomatch here
    · exact timed.same rfl rfl rfl rfl fun _ _ _ _ here => nomatch here
  · exact timed.same rfl rfl rfl rfl fun _ _ _ _ here => nomatch here
  · exact timed.same rfl rfl rfl rfl fun _ _ _ _ here => nomatch here
  · exact timed.same rfl rfl rfl rfl fun _ _ _ _ here => nomatch here
  · exact timed.stage progress
  · refine timed.same rfl rfl rfl rfl fun _ _ _ _ here => ?_
    dsimp only at here
    split at here <;> cases here

end Checkpoints

section Runs

theorem HeartbeatLoop.step_leaseSeconds (taken : s.step now event = some u) : u.leaseSeconds = s.leaseSeconds := by
  obtain ⟨wakes, -, -, -, rfl⟩ | ⟨sent, expires, pending, ok, cancelRequested, -, -, rfl⟩ |
    ⟨sent, expires, pending, fault, -, -, rfl⟩ | ⟨sent, pending, -, -, rfl⟩ | ⟨fired, -, -, rfl⟩ |
    ⟨sent, expires, pending, -, -, rfl⟩ | ⟨progress, -, rfl⟩ | ⟨-, rfl⟩ := step_cases taken
  · unfold head
    dsimp only
    split_ifs <;> rfl
  · unfold answered
    split_ifs <;> rfl
  · unfold failed
    split_ifs <;> rfl
  · rfl
  · rfl
  · rfl
  · rfl
  · rfl

theorem HeartbeatLoop.started_timely (short : 15 ≤ leaseSeconds) (order : claimedAt ≤ now) :
    Timely (.started leaseSeconds claimedAt now : HeartbeatLoop P) where
  lease := short
  past := order
  ahead := fun due here => by
    cases here
    exact le_add_of_nonneg_right (le_max_left _ _)
  attempted := fun none => nomatch none
  sleeps := fun _ _ none => nomatch none
  calls := fun _ _ _ here => nomatch here
  cancels := fun _ here => nomatch here
  lost := fun none => nomatch none

theorem HeartbeatLoop.started_flushes : Flushes (.started leaseSeconds claimedAt now : HeartbeatLoop P) where
  ahead := fun _ _ none => nomatch none
  unique := fun _ _ none => nomatch none
  there := .inl rfl
  pending := fun _ none => nomatch none
  newest := fun _ none => nomatch none
  sent := fun _ _ _ _ here => nomatch here
  carried := fun _ none => nomatch none

theorem HeartbeatLoop.Run.timely (short : 15 ≤ leaseSeconds) (order : claimedAt ≤ now)
    (run : HeartbeatLoop.Run (.started leaseSeconds claimedAt now : HeartbeatLoop P) s) :
    Timely s ∧ Undeclared s ∧ Flushes s ∧ s.leaseSeconds = leaseSeconds := by
  induction run with
  | start => exact ⟨started_timely short order, fun _ => rfl, started_flushes, rfl⟩
  | step before taken ih =>
    obtain ⟨timely, undeclared, flushes, lease⟩ := ih
    exact ⟨timely.step undeclared taken, undeclared.step taken, flushes.step taken,
      (step_leaseSeconds taken).trans lease⟩

/-- The timer for which the loop waits ends its wait. -/
theorem Timely.wakes {due : ℚ} (timely : Timely s) (waits : s.beat.due = some due) :
    ∃ event u, s.step due event = some u := by
  have later : ¬due < s.clock := not_lt.mpr (timely.ahead due waits)
  cases beat : s.beat with
  | sleeping wakes =>
    have same : wakes = due := by simpa [beat, Beat.due] using waits
    subst same
    exact ⟨.wake, { s with clock := wakes }.head wakes, by simp [HeartbeatLoop.step, later, beat, Beat.due]⟩
  | calling sent expires pending =>
    have same : expires = due := by simpa [beat, Beat.due] using waits
    subst same
    exact ⟨.expired, { s with clock := expires, beat := .cancelling expires, cancelledAt := some expires },
      by simp [HeartbeatLoop.step, later, beat, Beat.due]⟩
  | cancelling fired => rw [beat] at waits; cases waits
  | lost => rw [beat] at waits; cases waits
  | ended => rw [beat] at waits; cases waits

section Obliging

/-- At this step no call outlives the cancellation of its timer, and no checkpoint replaces one that waits unsent. -/
structure Obliging (s : HeartbeatLoop P) (now : ℚ) (event : BeatEvent P) : Prop where
  ends : ∀ fired, s.beat = .cancelling fired → now = fired
  sends : ∀ progress entry, event = .stage progress → s.context.snapshot = some entry → entry ∈ s.carried

/-- Any number of such steps. -/
inductive HeartbeatLoop.ObligingRun (s : HeartbeatLoop P) : HeartbeatLoop P → Prop
  | start : HeartbeatLoop.ObligingRun s s
  | step {t u : HeartbeatLoop P} {now : ℚ} {event : BeatEvent P} (run : HeartbeatLoop.ObligingRun s t)
      (obliging : Obliging t now event) (taken : t.step now event = some u) : HeartbeatLoop.ObligingRun s u

theorem HeartbeatLoop.ObligingRun.run (run : HeartbeatLoop.ObligingRun s u) : HeartbeatLoop.Run s u := by
  induction run with
  | start => exact .start
  | step _ _ taken ih => exact .step ih taken

/-- A call that the timer cancels is over at once, and what a newer checkpoint replaced has been sent. -/
structure Prompt (s : HeartbeatLoop P) : Prop where
  fresh : s.beat.due.isSome = true → s.cancelledAt = none
  cancels : ∀ fired, s.beat = .cancelling fired → s.clock = fired
  together : ∀ fired at', s.cancelledAt = some fired → s.lostAt = some at' → at' = fired
  older : ∀ g p, (g, p) ∈ s.staged → g < s.context.generation → (g, p) ∈ s.carried

/-- The steps of the loop that neither cancel a call nor stage a checkpoint. -/
theorem Prompt.same (prompt : Prompt s) (uncancelled : s.cancelledAt = none) (cancelled : u.cancelledAt = s.cancelledAt)
    (beat : ∀ fired, u.beat ≠ .cancelling fired) (staged : u.staged = s.staged)
    (generation : u.context.generation = s.context.generation) (carried : ∀ entry ∈ s.carried, entry ∈ u.carried) :
    Prompt u := by
  have none : u.cancelledAt = none := cancelled.trans uncancelled
  refine ⟨fun _ => none, fun fired here => absurd here (beat fired), fun fired at' here => ?_, fun g p member before => ?_⟩
  · cases none.symm.trans here
  · rw [staged] at member
    rw [generation] at before
    exact carried _ (prompt.older g p member before)

theorem Prompt.head (prompt : Prompt s) (uncancelled : s.cancelledAt = none) : Prompt (s.head now) := by
  unfold HeartbeatLoop.head
  dsimp only
  split_ifs
  · exact prompt.same uncancelled rfl (fun _ here => nomatch here) rfl rfl fun _ member => member
  · exact prompt.same uncancelled rfl (fun _ here => nomatch here) rfl rfl fun _ => List.mem_append_left _
  · exact prompt.same uncancelled rfl (fun _ here => nomatch here) rfl rfl fun _ => List.mem_append_left _

theorem Prompt.answered {sent : ℚ} {pending : Option (ℕ × P)} {ok cancelRequested : Bool} (prompt : Prompt s)
    (uncancelled : s.cancelledAt = none) : Prompt (s.answered now sent pending ok cancelRequested) := by
  unfold HeartbeatLoop.answered
  split_ifs
  · refine prompt.same uncancelled rfl (fun _ here => nomatch here) rfl ?_ fun _ member => member
    cases pending with
    | none => rfl
    | some entry =>
      change (s.context.ack entry.1).generation = _
      unfold Checkpoints.ack
      split_ifs <;> rfl
  · exact prompt.same uncancelled rfl (fun _ here => nomatch here) rfl rfl fun _ member => member

theorem Prompt.failed {fault : Fault} (prompt : Prompt s) (uncancelled : s.cancelledAt = none) :
    Prompt (s.failed now fault) := by
  unfold HeartbeatLoop.failed
  split_ifs
  · exact prompt.same uncancelled rfl (fun _ here => nomatch here) rfl rfl fun _ member => member
  · exact prompt.same uncancelled rfl (fun _ here => nomatch here) rfl rfl fun _ member => member

theorem Prompt.stage (prompt : Prompt s) (flushes : Flushes s) (progress : P)
    (sends : ∀ entry, s.context.snapshot = some entry → entry ∈ s.carried) : Prompt { s with
      context := s.context.stage progress
      staged := s.staged ++ [((s.context.stage progress).generation, progress)] } := by
  refine ⟨prompt.fresh, prompt.cancels, prompt.together, fun g p member before => ?_⟩
  have old : g ≤ s.context.generation := Nat.lt_succ_iff.mp before
  have there : (g, p) ∈ s.staged := by
    obtain here | new := List.mem_append.mp member
    · exact here
    · cases List.mem_singleton.mp new
      exact absurd before (lt_irrefl _)
  obtain older | rfl := old.lt_or_eq
  · exact prompt.older g p there older
  · obtain pending | flushed := flushes.newest p there
    · apply sends
      rw [Checkpoints.snapshot, pending]
      rfl
    · exact flushes.carried _ flushed

theorem Prompt.step (prompt : Prompt s) (timely : Timely s) (undeclared : Undeclared s) (flushes : Flushes s)
    (obliging : Obliging s now event) (taken : s.step now event = some u) : Prompt u := by
  have timed : Prompt { s with clock := now } :=
    ⟨prompt.fresh, fun fired here => obliging.ends fired here, prompt.together, prompt.older⟩
  have sameFlushes : Flushes { s with clock := now } := flushes.same rfl rfl rfl rfl fun _ _ _ _ _ => rfl
  obtain ⟨wakes, -, sleeping, -, rfl⟩ | ⟨sent, expires, pending, ok, cancelRequested, -, calling, rfl⟩ |
    ⟨sent, expires, pending, fault, -, calling, rfl⟩ | ⟨sent, pending, -, calling, rfl⟩ |
    ⟨fired, -, cancelling, rfl⟩ | ⟨sent, expires, pending, -, calling, rfl⟩ | ⟨progress, staging, rfl⟩ | ⟨-, rfl⟩ :=
    HeartbeatLoop.step_cases taken
  · exact timed.head (prompt.fresh (by rw [sleeping]; rfl))
  · exact timed.answered (prompt.fresh (by rw [calling]; rfl))
  · exact timed.failed (prompt.fresh (by rw [calling]; rfl))
  · have none : s.lostAt = none := undeclared (by rw [calling]; rfl)
    refine ⟨fun here => (nomatch here), fun fired here => ?_, fun fired at' _ here => ?_, prompt.older⟩
    · cases here
      rfl
    · cases none.symm.trans here
  · obtain ⟨cancelled, -⟩ := timely.cancels fired cancelling
    refine ⟨fun here => (nomatch here), fun fired here => (nomatch here), fun fired' at' here lost => ?_, prompt.older⟩
    cases cancelled.symm.trans here
    cases lost
    exact obliging.ends fired cancelling
  · exact timed.same (prompt.fresh (by rw [calling]; rfl)) rfl (fun _ here => nomatch here) rfl rfl fun _ member => member
  · exact timed.stage sameFlushes progress fun entry => obliging.sends progress entry staging
  · refine ⟨fun here => ?_, fun fired here => ?_, prompt.together, prompt.older⟩
    · dsimp only at here
      split at here <;> cases here
    · dsimp only at here
      split at here <;> cases here

theorem HeartbeatLoop.ObligingRun.prompt (short : 15 ≤ leaseSeconds) (order : claimedAt ≤ now)
    (run : HeartbeatLoop.ObligingRun (.started leaseSeconds claimedAt now : HeartbeatLoop P) s) : Prompt s := by
  induction run with
  | start => exact ⟨fun _ => rfl, fun _ here => (nomatch here), fun _ _ here => (nomatch here), fun _ _ here => (nomatch here)⟩
  | step before obliging taken ih =>
    obtain ⟨timely, undeclared, flushes, -⟩ := before.run.timely short order
    exact ih.step timely undeclared flushes obliging taken

/-- The loop goes on: it sleeps or awaits a call. -/
def Beat.goes : Beat P → Bool
  | .sleeping _ | .calling .. | .cancelling _ => true
  | .lost | .ended => false

/-- Within the budget the loop goes on or has declared its ownership lost. -/
theorem Prompt.within (prompt : Prompt s) (timely : Timely s) (confirmed : s.confirmed = true) :
    (s.beat.goes = true → s.clock ≤ s.lastOk + s.budget) ∧ ∀ at', s.lostAt = some at' → at' ≤ s.lastOk + s.budget := by
  constructor
  · intro goes
    cases beat : s.beat with
    | sleeping wakes =>
      have due : s.beat.due = some wakes := by rw [beat]; rfl
      exact (timely.ahead wakes due).trans (timely.within confirmed due)
    | calling sent expires pending =>
      have due : s.beat.due = some expires := by rw [beat]; rfl
      exact (timely.ahead expires due).trans (timely.within confirmed due)
    | cancelling fired =>
      rw [prompt.cancels fired beat]
      exact (timely.cancels fired beat).2.2.2 confirmed
    | lost => rw [beat] at goes; cases goes
    | ended => rw [beat] at goes; cases goes
  · intro at' lost
    obtain within | ⟨fired, cancelled, within⟩ := timely.lost confirmed at' lost
    · exact within
    · rw [prompt.together fired at' cancelled lost]
      exact within

/-- Every staged checkpoint has been sent or waits to be. -/
theorem Prompt.sent {g : ℕ} {p : P} (prompt : Prompt s) (flushes : Flushes s) (member : (g, p) ∈ s.staged) :
    (g, p) ∈ s.carried ∨ s.context.snapshot = some (g, p) := by
  obtain older | rfl := (flushes.ahead g p member).lt_or_eq
  · exact .inl (prompt.older g p member older)
  · obtain pending | flushed := flushes.newest p member
    · right
      rw [Checkpoints.snapshot, pending]
      rfl
    · exact .inl (flushes.carried _ flushed)

end Obliging

/-- The events of a loop, one after the other. -/
def HeartbeatLoop.plays : List (ℚ × BeatEvent P) → HeartbeatLoop P → Option (HeartbeatLoop P)
  | [], s => some s
  | (now, event) :: rest, s => (s.step now event).bind (plays rest)

theorem HeartbeatLoop.Run.plays {events : List (ℚ × BeatEvent P)} {t : HeartbeatLoop P} (run : HeartbeatLoop.Run s t)
    (played : t.plays events = some u) : HeartbeatLoop.Run s u := by
  induction events generalizing t with
  | nil =>
    cases played
    exact run
  | cons event rest ih =>
    obtain ⟨next, taken, played⟩ := Option.bind_eq_some_iff.mp played
    exact ih (.step run taken) played

/-- The step obliges, as a test. -/
def HeartbeatLoop.obliges [DecidableEq P] (now : ℚ) (event : BeatEvent P) (s : HeartbeatLoop P) : Bool :=
  (match s.beat with
    | .cancelling fired => decide (now = fired)
    | _ => true) &&
  match event, s.context.snapshot with
  | .stage _, some entry => decide (entry ∈ s.carried)
  | _, _ => true

theorem HeartbeatLoop.obliging [DecidableEq P] (obliges : s.obliges now event = true) : Obliging s now event := by
  obtain ⟨ends, sends⟩ := (Bool.and_eq_true _ _).mp obliges
  constructor
  · intro fired cancelling
    rw [cancelling] at ends
    exact of_decide_eq_true ends
  · rintro progress entry rfl waits
    rw [waits] at sends
    exact of_decide_eq_true sends

/-- The events of a loop that obliges, one after the other. -/
def HeartbeatLoop.playsObliging [DecidableEq P] : List (ℚ × BeatEvent P) → HeartbeatLoop P → Option (HeartbeatLoop P)
  | [], s => some s
  | (now, event) :: rest, s => if s.obliges now event then (s.step now event).bind (playsObliging rest) else none

theorem HeartbeatLoop.ObligingRun.plays [DecidableEq P] {events : List (ℚ × BeatEvent P)} {t : HeartbeatLoop P}
    (run : HeartbeatLoop.ObligingRun s t) (played : t.playsObliging events = some u) : HeartbeatLoop.ObligingRun s u := by
  induction events generalizing t with
  | nil =>
    cases played
    exact run
  | cons event rest ih =>
    unfold playsObliging at played
    split_ifs at played with obliges
    obtain ⟨next, taken, played⟩ := Option.bind_eq_some_iff.mp played
    exact ih (.step run (obliging obliges) taken) played

end Runs

end Worker
end Taskq
