import Taskq.Contract.Overlaps
import Taskq.Contract.Rates
import Taskq.Invariants.Breakers

/-! The circuit breakers of queues over whole runs: what opens them, what closes them, and how often they are probed. -/
namespace Taskq
open Relational
open CircuitBreaker (Signal Breaker Evidence Unreset)

variable {site : Site} {allowed : System → Env → Command → Prop} {s t u : System} {env : Env} {command : Command} {db db' : Db}
  {queue : String} {installed : Time} {log : List Record} {told : List (List (Signal Time))}

section Runs

/-- The breaker of a queue that was told this since the installation. -/
abbrev breakerTold (told : List (Signal Time)) : Breaker Time := (Breaker.off (seconds 30)).hearAll told

theorem breakerTold_append (told more : List (Signal Time)) : breakerTold (told ++ more) = (breakerTold told).hearAll more :=
  CircuitBreaker.hearAll_append told more _

/-- The calls of a run from the installation, and what each of them tells the breaker of a queue in the state in which it
is made. -/
inductive System.Telling (site : Site) (allowed : System → Env → Command → Prop) (installed : Time) (queue : String) :
    List Record → List (List (Signal Time)) → System → Prop
  | start : System.Telling site allowed installed queue [] [] (.installed site installed)
  | step {log : List Record} {told : List (List (Signal Time))} {t u : System} {env : Env} {command : Command}
      {entries : List Logged} {last : List (Signal Time)} (before : System.Telling site allowed installed queue log told t)
      (permitted : allowed t env command) (step : System.Step site env command t u)
      (tells : Tells queue env command entries last t.db u.db) :
      System.Telling site allowed installed queue (log ++ [⟨env, command, entries⟩]) (told ++ [last]) u

/-- The calls of a run from the installation with their statements, what each of them told the breaker of a queue, and that
the row of the queue says at the end what a breaker holds that was told all this. -/
structure Recounted (site : Site) (allowed : System → Env → Command → Prop) (installed : Time) (queue : String)
    (log : List Record) (told : List (List (Signal Time))) (t : System) : Prop where
  history : System.History site allowed (.installed site installed) log t
  calls : System.Telling site allowed installed queue log told t
  tracks : Tracks site.arithmetic (t.db.flowRow queue) (breakerTold told.flatten)

theorem Recounted.step {entries : List Logged} {last : List (Signal Time)}
    (recounted : Recounted site allowed installed queue log told t) (permitted : allowed t env command)
    (step : System.Step site env command t u) (tells : Tells queue env command entries last t.db u.db)
    (carries : Carries site.arithmetic queue last t.db u.db) :
    Recounted site allowed installed queue (log ++ [⟨env, command, entries⟩]) (told ++ [last]) u := by
  refine ⟨recounted.history.step permitted step tells.made, recounted.calls.step permitted step tells, ?_⟩
  rw [List.flatten_append, List.flatten_singleton, breakerTold_append]
  exact carries _ recounted.tracks

/-- What one call of a run tells the breaker of a queue. -/
theorem System.Step.tells (step : System.Step site env command s t) (queue : String) : ∃ entries last,
    Tells queue env command entries last s.db t.db ∧ Carries site.arithmetic queue last s.db t.db := by
  rw [← step.server]
  exact Command.exec_tells step.exec queue

theorem System.Run.recounted (run : System.Run site allowed (.installed site installed) t) (queue : String) :
    ∃ log told, Recounted site allowed installed queue log told t := by
  induction run with
  | start => exact ⟨[], [], .start, .start, tracks_fresh _ 0⟩
  | step _ permitted step ih =>
    obtain ⟨log, told, recounted⟩ := ih
    obtain ⟨entries, last, tells, carries⟩ := step.tells queue
    exact ⟨_, _, recounted.step permitted step tells carries⟩

/-- The breaker of a queue, as its row keeps it, is at the end of any run the breaker that was told how every job of the
queue ended and how long its last attempt took, what its operators said and which claims asked, in the order in which it
happened. -/
theorem breakers_do_as_told (run : System.Run site allowed (.installed site installed) t) :
    ∀ queue, ∃ log told, Recounted site allowed installed queue log told t := by
  intro queue
  exact run.recounted queue

/-- A queue whose breaker opens at one failure, and which has a running job and two that wait. -/
def frailQueue : List (Time × Command) :=
  [(0, .ensureQueue (some "q") none), (0, .setBreakerConfig "q" (some 1) (some 10) (some 1)), (0, .enqueue (.simple "q")),
    (0, .enqueue (.simple "q")), (0, .enqueue (.simple "q")), (0, .claimJobs (.simple "q" 1))]

/-- A worker gives up on a job, after so many seconds. -/
def givesUp (after : ℤ) (job attempt : Uuid) : Time × Command :=
  (seconds after, .failJob job attempt (some "w") (some "boom") (some false) none none none)

/-- The state of the breaker of the queue. -/
def breakerIs (state : BreakerState) (s : System) : Bool := (s.db.flowRow "q").breakerState = state

/-- A job fails, and the breaker opens once. -/
theorem breakers_do_as_told_once : ∃ t log told, Recounted .plain anyCall 0 "q" log told t ∧
    (breakerTold told.flatten).phase = .opened ∧ (breakerTold told.flatten).openings = 1 := by
  have played : System.plays .plain (frailQueue ++ [givesUp 1 2 5]) (.installed .plain 0) (fun t =>
      breakerIs .opened t && (t.db.flowRow "q").breakerOpenedTotal = 1) = true := by decide +kernel
  obtain ⟨t, run, there⟩ := System.plays_run anyCall played fun _ _ _ => trivial
  simp only [breakerIs, Bool.and_eq_true, decide_eq_true_eq] at there
  obtain ⟨log, told, recounted⟩ := breakers_do_as_told run "q"
  refine ⟨t, log, told, recounted, ?_, ?_⟩
  · rw [recounted.tracks.phase, there.1]
    rfl
  · rw [recounted.tracks.openings, there.2]

theorem System.plays_step {call : Time × Command} {p : System → Bool} (plays : System.plays site [call] s p = true) :
    ∃ t, System.Step site (.alone site call.1 (s.xid + 1)) call.2 s t ∧ p t = true := by
  simp only [System.plays, System.play] at plays
  split at plays
  · rename_i t run
    obtain ⟨db, first, finish⟩ := seq_eq_ok.mp run
    cases finish
    exact ⟨_, .commit rfl (Nat.lt_succ_self s.xid) first, plays⟩
  · cases plays

theorem phase_closed {state : BreakerState} : state.phase = .closed ↔ state = .closed := by cases state <;> simp [BreakerState.phase]

/-- What does not end work is told by the call itself. -/
theorem Tells.itself {s : Signal Time} {entries : List Logged} {last : List (Signal Time)}
    (tells : Tells queue env command entries last db db') (member : s ∈ last) (other : ∀ now e, s ≠ .settled now e) :
    s ∈ command.tells queue env := by
  obtain own | ⟨e, ends⟩ := tells.cases_of_mem member
  · exact own
  · exact absurd ends (other _ e)

theorem tripped_told {now : Time} (told : .tripped now ∈ command.tells queue env) : command = .tripBreaker queue := by
  cases command <;> simp only [Command.tells] at told <;> try contradiction
  all_goals
    split_ifs at told with same
    all_goals simp_all

theorem forced_told (told : .forced ∈ command.tells queue env) : command = .forceCloseBreaker queue := by
  cases command <;> simp only [Command.tells] at told <;> try contradiction
  all_goals
    split_ifs at told with same
    all_goals simp_all

/-- A call that opens the breaker of a queue, and is not that of an operator, ends a job of the queue with what it takes: the
outcomes that the breaker listened to since it was closed last end in a streak as long as the threshold, or the samples
of its window, all taken since then and in time, are enough and bad enough. -/
theorem breakers_open_on_evidence (run : System.Run site allowed (.installed site installed) t)
    (permitted : allowed t env command) (step : System.Step site env command t u) (other : command ≠ .tripBreaker queue)
    (closed : (t.db.flowRow queue).breakerState = .closed) (turned : (u.db.flowRow queue).breakerState ≠ .closed) :
    ∃ log told entries heard e rest, Recounted site allowed installed queue log told t ∧
      Recounted site allowed installed queue (log ++ [⟨env, command, entries⟩])
        (told ++ [heard ++ .settled env.now e :: rest]) u ∧
      ∃ threshold before after, told.flatten ++ heard = before ++ after ∧
        Unreset (Breaker.off (seconds 30)) before after ∧
        (breakerTold (before ++ after)).threshold = some threshold ∧
        Evidence threshold ((breakerTold before).listensAll (after ++ [.settled env.now e]))
          (after ++ [.settled env.now e]) (breakerTold (before ++ after)) := by
  obtain ⟨log, told, recounted⟩ := run.recounted queue
  obtain ⟨entries, last, tells, carries⟩ := step.tells queue
  have next := recounted.step permitted step tells carries
  have was : (breakerTold told.flatten).phase = .closed := by
    rw [recounted.tracks.phase, closed]
    rfl
  have is : ¬((breakerTold told.flatten).hearAll last).phase = .closed := by
    rw [(carries _ recounted.tracks).phase, phase_closed]
    exact turned
  -- the signal of this call at which the breaker turns
  obtain ⟨heard, s, rest, rfl, still, ends⟩ :=
    CircuitBreaker.turned_by (P := fun b : Breaker Time => b.phase = .closed) was is
  rw [CircuitBreaker.hearAll_concat] at ends
  obtain ⟨now, e, rfl, opens⟩ := CircuitBreaker.turns_at_ending still ends fun now same => by
    subst same
    have member : Signal.tripped now ∈ heard ++ .tripped now :: rest := by simp
    exact other (tripped_told (tells.itself member (by simp)))
  have member : Signal.settled now e ∈ heard ++ .settled now e :: rest := by simp
  obtain rfl : now = env.now := tells.timely member rfl
  rw [← breakerTold_append] at still
  rw [← breakerTold_append, ← CircuitBreaker.hearAll_concat] at opens
  obtain ⟨threshold, before, after, armed, split, unreset, evidence⟩ :=
    CircuitBreaker.opens_on_evidence (CircuitBreaker.remembers_off _) still opens
  rw [split] at armed evidence
  exact ⟨log, told, entries, heard, e, rest, recounted, next, threshold, before, after, split, unreset, armed, evidence⟩

/-- The failure of a job opens the breaker. -/
theorem breakers_open_on_evidence_once : ∃ (t u : System) (told heard before after : List (Signal Time))
    (e : CircuitBreaker.Ending) (threshold : ℤ), breakerIs .closed t = true ∧ breakerIs .opened u = true ∧
    told ++ heard = before ++ after ∧ Unreset (Breaker.off (seconds 30)) before after ∧
    Evidence threshold ((breakerTold before).listensAll (after ++ [.settled (seconds 1) e]))
      (after ++ [.settled (seconds 1) e]) (breakerTold (before ++ after)) := by
  have played : System.plays .plain frailQueue (.installed .plain 0) (fun t =>
      breakerIs .closed t && System.plays .plain [givesUp 1 2 5] t (breakerIs .opened)) = true := by decide +kernel
  obtain ⟨t, run, there⟩ := System.plays_run anyCall played fun _ _ _ => trivial
  obtain ⟨closed, there⟩ := (Bool.and_eq_true _ _).mp there
  obtain ⟨u, step, opened⟩ := System.plays_step there
  have turned : (u.db.flowRow "q").breakerState ≠ .closed := by
    rw [of_decide_eq_true opened]
    simp
  obtain ⟨-, told, -, heard, e, -, -, -, threshold, before, after, split, unreset, -, evidence⟩ :=
    breakers_open_on_evidence run trivial step (by simp [givesUp]) (of_decide_eq_true closed) turned
  exact ⟨t, u, told.flatten, heard, before, after, e, threshold, closed, opened, split, unreset, evidence⟩

/-- A call that closes the breaker of a queue, and is not that of an operator, ends a job of the queue with success; a claim
was elected before, the breaker has probed ever since, and the successes told since then are as many as it needs. -/
theorem breakers_close_on_proofs (run : System.Run site allowed (.installed site installed) t)
    (permitted : allowed t env command) (step : System.Step site env command t u) (other : command ≠ .forceCloseBreaker queue)
    (unclosed : (t.db.flowRow queue).breakerState ≠ .closed) (turned : (u.db.flowRow queue).breakerState = .closed) :
    ∃ log told entries heard e rest, Recounted site allowed installed queue log told t ∧
      Recounted site allowed installed queue (log ++ [⟨env, command, entries⟩])
        (told ++ [heard ++ .settled env.now e :: rest]) u ∧ e.failed = false ∧
      ∃ before elected period, told.flatten ++ heard = before ++ .claimed elected :: period ∧
        (breakerTold before).Elects elected ∧
        (∀ p, p <+: period → (breakerTold (before ++ .claimed elected :: p)).phase = .probing) ∧
        (breakerTold (told.flatten ++ heard)).needed ≤
          ((((period ++ [Signal.settled env.now e]).filterMap Signal.failed).count false : ℕ) : ℤ) := by
  obtain ⟨log, told, recounted⟩ := run.recounted queue
  obtain ⟨entries, last, tells, carries⟩ := step.tells queue
  have next := recounted.step permitted step tells carries
  have was : (breakerTold told.flatten).phase ≠ .closed := by
    rw [recounted.tracks.phase, ne_eq, phase_closed]
    exact unclosed
  have is : ¬((breakerTold told.flatten).hearAll last).phase ≠ .closed := by
    rw [(carries _ recounted.tracks).phase, not_not, phase_closed]
    exact turned
  obtain ⟨heard, s, rest, rfl, still, ends⟩ :=
    CircuitBreaker.turned_by (P := fun b : Breaker Time => b.phase ≠ .closed) was is
  rw [CircuitBreaker.hearAll_concat, not_not] at ends
  obtain ⟨probing, now, e, rfl⟩ := CircuitBreaker.closes_at_ending still ends fun same => by
    subst same
    have member : Signal.forced ∈ heard ++ .forced :: rest := by simp
    exact other (forced_told (tells.itself member (by simp)))
  have member : Signal.settled now e ∈ heard ++ .settled now e :: rest := by simp
  obtain rfl : now = env.now := tells.timely member rfl
  rw [← breakerTold_append] at probing
  rw [← breakerTold_append, ← CircuitBreaker.hearAll_concat] at ends
  obtain ⟨succeeded, before, elected, period, split, elects, steady, counted⟩ :=
    CircuitBreaker.closes_on_proofs (fun _ => rfl) (by simp [Breaker.off]) probing ends
  exact ⟨log, told, entries, heard, e, rest, recounted, next, succeeded, before, elected, period, split, elects, steady,
    counted⟩

/-- The success of the probe closes the breaker. -/
theorem breakers_close_on_proofs_once : ∃ (t u : System) (told heard before period : List (Signal Time)) (elected : Time),
    breakerIs .halfOpen t = true ∧ breakerIs .closed u = true ∧ told ++ heard = before ++ .claimed elected :: period ∧
    (breakerTold before).Elects elected := by
  have played : System.plays .plain (frailQueue ++ [givesUp 1 2 5, (seconds 11, .claimJobs (.simple "q" 1))])
      (.installed .plain 0) (fun t => breakerIs .halfOpen t &&
        System.plays .plain [(seconds 12, .completeJob 3 6 (some "w") none none none)] t (breakerIs .closed)) = true := by
    decide +kernel
  obtain ⟨t, run, there⟩ := System.plays_run anyCall played fun _ _ _ => trivial
  obtain ⟨probing, there⟩ := (Bool.and_eq_true _ _).mp there
  obtain ⟨u, step, closed⟩ := System.plays_step there
  have unclosed : (t.db.flowRow "q").breakerState ≠ .closed := by
    rw [of_decide_eq_true probing]
    simp
  obtain ⟨-, told, -, heard, -, -, -, -, -, before, elected, period, split, elects, -⟩ :=
    breakers_close_on_proofs run trivial step (by simp) unclosed (of_decide_eq_true closed)
  exact ⟨t, u, told.flatten, heard, before, period, elected, probing, closed, split, elects⟩

end Runs

section Probes

variable {c c' : ClaimCall} {q : Queue} {env' : Env} {answer answer' : ClaimBatch}

/-- The breaker of the queue is armed and not closed: only an elected claim passes. -/
def Guarded (queue : String) (db : Db) : Prop :=
  (db.flowRow queue).breakerFailureThreshold ≠ none ∧ (db.flowRow queue).breakerState ≠ .closed

/-- The cooldown that is in force for a queue. -/
def cooldownOf (queue : String) (db : Db) : Time := seconds ((db.flowRow queue).breakerCooldownSeconds.getD 30)

/-- The gate of a guarded queue lets a claim through only after the cooldown, and probes from then on. -/
theorem breakerGate_elects (guarded : Guarded queue db) (run : breakerGate env queue db = .ok (none, db')) :
    (db.flowRow queue).breakerState = .opened ∧ (∃ at', (db.flowRow queue).breakerTrippedAt = some at' ∧
      at' + cooldownOf queue db ≤ env.now) ∧ (db'.flowRow queue).breakerState = .halfOpen := by
  obtain ⟨armed, unclosed⟩ := guarded
  unfold breakerGate at run
  split at run
  · rename_i missing
    rw [Db.flowRow, missing] at armed
    exact absurd rfl armed
  · rename_i flow found
    have here := Db.flowRow_of_found found
    unfold cooldownOf
    rw [here] at armed unclosed ⊢
    split at run
    · rename_i passes
      obtain off | closed := passes
      · exact absurd (Option.isNone_iff_eq_none.mp off) armed
      · exact absurd closed unclosed
    · dsimp only at run
      split at run
      · rename_i tripped opened since
        split at run
        · obtain ⟨_, -, finish⟩ := seq_eq_ok.mp run
          cases finish
        · rename_i late
          cases run
          refine ⟨opened, ⟨tripped, since, sub_nonpos.mp (not_lt.mp late)⟩, ?_⟩
          rw [Db.flowRow_putFlow, if_pos rfl]
      · split at run <;> cases run
      · cases run

theorem queueGate_alike {args : ClaimArgs} {batch : ℤ} {gate : Except ClaimBatch ℤ}
    (run : queueGate env args q batch db = .ok (gate, db')) (queue : String) : Alike (db.flowRow queue) (db'.flowRow queue) := by
  simp only [queueGate] at run
  split at run
  · cases run
    exact .refl _
  · split at run
    · cases run
      exact .refl _
    · obtain ⟨⟨grant, consumed⟩, consume, run⟩ := seq_eq_ok.mp run
      have alike := flowConsumeQueue_alike consume queue
      split at run <;> cases run <;> exact alike

/-- A claim that starts a job of a guarded queue was elected, and the breaker probes after it. -/
theorem claim_elected (run : c.run env db = .ok (answer, db')) (rated : db.Rated) (guarded : Guarded c.args.queue db)
    (started : answer.jobs ≠ []) : (db.flowRow c.args.queue).breakerState = .opened ∧
      (∃ at', (db.flowRow c.args.queue).breakerTrippedAt = some at' ∧ at' + cooldownOf c.args.queue db ≤ env.now) ∧
      (db'.flowRow c.args.queue).breakerState = .halfOpen := by
  have refused (accept : Bool) (wait : Option ℤ) : (throttledOrEmpty accept wait).jobs = [] := by
    unfold throttledOrEmpty
    split_ifs <;> rfl
  cases c.outcome run rated with
  | held => exact absurd (refused _ _) started
  | unknown | paused | empty => exact absurd rfl started
  | throttled gate stored going full =>
    simp only [queueGate] at full
    split at full
    · cases full
      exact absurd (refused _ _) started
    · split at full
      · cases full
      · obtain ⟨⟨grant, consumed⟩, -, full⟩ := seq_eq_ok.mp full
        split at full <;> cases full
        exact absurd (refused _ _) started
  | @served q gated granted _ n jobs gate stored going grant some' ids flows =>
    obtain ⟨opened, cool, probes⟩ := breakerGate_elects guarded gate
    refine ⟨opened, cool, ?_⟩
    have after : db'.flowRow c.args.queue = granted.flowRow c.args.queue := by rw [Db.flowRow, Db.flowRow, flows]
    obtain ⟨_, _, _, _, same⟩ := queueGate_alike grant c.args.queue
    rw [after, same]
    exact probes

/-- Two claims that start jobs of a queue while its breaker is armed and not closed are at least the cooldown apart that is
in force at the second, whatever is called between them. -/
theorem probes_a_cooldown_apart (reachable : System.Reachable site clockForward s)
    (first : System.Step site env c.command s t) (served : c.run env s.db = .ok (answer, t.db)) (forward : s.clock ≤ env.now)
    (started : answer.jobs ≠ []) (guarded : Guarded c.args.queue s.db) (run : System.Run site clockForward t u)
    (again : c'.run env' u.db = .ok (answer', db')) (started' : answer'.jobs ≠ [])
    (guarded' : Guarded c'.args.queue u.db) (same : c'.args.queue = c.args.queue) :
    env.now + cooldownOf c.args.queue u.db ≤ env'.now := by
  obtain ⟨-, -, probes⟩ := claim_elected served reachable.rated guarded started
  have one : System.Run site clockForward s t := .step .start forward first
  obtain ⟨installed, before⟩ := reachable.extend one
  have rated : u.db.Rated := System.Reachable.rated ⟨installed, before.trans run⟩
  obtain ⟨opened, ⟨at', tripped, cool⟩, -⟩ := claim_elected again rated guarded' started'
  obtain ⟨log, told, recounted⟩ := before.recounted c.args.queue
  have clock : t.clock = env.now := by cases first; rfl
  -- since the first claim the breaker is open only if it was tripped later
  have later : env.now ≤ u.clock ∧
      ∃ b : Breaker Time, Tracks site.arithmetic (u.db.flowRow c.args.queue) b ∧ b.Since env.now := by
    refine run.induction (I := fun u => env.now ≤ u.clock ∧
      ∃ b : Breaker Time, Tracks site.arithmetic (u.db.flowRow c.args.queue) b ∧ b.Since env.now)
      ⟨clock.ge, _, recounted.tracks, ?_⟩ ?_
    · intro opened'
      rw [recounted.tracks.phase, probes] at opened'
      cases opened'
    · rintro v w env'' command ⟨before, b, tracks, since⟩ onward step
      have onward : v.clock ≤ env''.now := onward
      obtain ⟨entries, last, tells, carries⟩ := step.tells c.args.queue
      have clock : w.clock = env''.now := by cases step; rfl
      refine ⟨(before.trans onward).trans clock.ge, _, carries b tracks, CircuitBreaker.since_hearAll since ?_⟩
      intro s member now told
      rw [tells.timely member told]
      exact before.trans onward
  obtain ⟨after, b, tracks, since⟩ := later
  rw [same] at opened tripped cool
  obtain ⟨tripped', is, late⟩ := since (by rw [tracks.phase, opened]; rfl)
  rw [tracks.trippedAt, tripped] at is
  cases is
  exact (add_le_add late le_rfl).trans cool

/-- The queue is guarded, and a claim starts a job. -/
def probesNow (env : Env) (s : System) (p : Db → Bool) : Bool :=
  (s.db.flowRow "q").breakerFailureThreshold.isSome && !breakerIs .closed s &&
    (oneJob.run env s.db).toOption.any fun r => !r.1.jobs.isEmpty && p r.2

theorem probesNow_iff {env : Env} {p : Db → Bool} (now : probesNow env s p = true) : Guarded "q" s.db ∧
    ∃ answer db', oneJob.run env s.db = .ok (answer, db') ∧ answer.jobs ≠ [] ∧ p db' = true := by
  simp only [probesNow, Bool.and_eq_true, breakerIs] at now
  obtain ⟨⟨armed, unclosed⟩, there⟩ := now
  obtain ⟨⟨answer, db'⟩, run, there⟩ := (Option.any_eq_true _ _).mp there
  obtain ⟨started, good⟩ := (Bool.and_eq_true _ _).mp there
  refine ⟨⟨Option.isSome_iff_ne_none.mp armed, by simpa using unclosed⟩, answer, db', toOption_eq_some.mp run, ?_, good⟩
  simpa using started

/-- The probe fails, and the next one starts after the cooldown. -/
theorem probes_a_cooldown_apart_once : ∃ (s t u : System) (answer answer' : ClaimBatch) (db' : Db),
    System.Run .plain clockForward t u ∧ oneJob.run (.alone .plain (seconds 11) 9) s.db = .ok (answer, t.db) ∧
    oneJob.run (.alone .plain (seconds 22) 20) u.db = .ok (answer', db') ∧ answer.jobs ≠ [] ∧ answer'.jobs ≠ [] ∧
    seconds 11 + cooldownOf "q" u.db ≤ seconds 22 := by
  have played : System.plays .plain (frailQueue ++ [givesUp 1 2 5]) (.installed .plain 0) (fun s =>
      decide (s.clock ≤ seconds 11 ∧ s.xid < 9) && probesNow (.alone .plain (seconds 11) 9) s fun db =>
        System.plays .plain [givesUp 12 3 6] ⟨db, seconds 11, 9, s.admitted ++ newJobs s.db db⟩ fun u =>
          probesNow (.alone .plain (seconds 22) 20) u fun _ => true) = true := by
    decide +kernel
  obtain ⟨s, run, there⟩ := System.plays_forward played (by decide)
  obtain ⟨early, there⟩ := (Bool.and_eq_true _ _).mp there
  obtain ⟨forward, fresh⟩ := of_decide_eq_true early
  obtain ⟨guarded, answer, db, served, started, there⟩ := probesNow_iff there
  obtain ⟨u, between, there⟩ := System.plays_forward there (by simp [givesUp, seconds])
  obtain ⟨guarded', answer', db', again, started', -⟩ := probesNow_iff there
  have first : System.Step .plain (.alone .plain (seconds 11) 9) oneJob.command s
      ⟨db, seconds 11, 9, s.admitted ++ newJobs s.db db⟩ := .commit rfl fresh (by rw [ClaimCall.exec, served]; rfl)
  refine ⟨s, _, u, answer, answer', db', between, served, again, started, started', ?_⟩
  exact probes_a_cooldown_apart ⟨0, run⟩ first served forward started guarded between again started' guarded' rfl

end Probes

end Taskq
