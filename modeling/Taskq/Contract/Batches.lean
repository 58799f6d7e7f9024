import Taskq.Contract.Evaluation
import Taskq.Scheduler.Engine

/-! The batches of the housekeeper: which claims get their call, and what a rejected call does to the others. -/
namespace Taskq
open Relational

section Claims

variable {env : Env} {worker : String} {lease : ℤ} {rows : List (Uuid × Schedule)} {claims : List ClaimedSchedule} {db db' : Db}

/-- Every row that a claim reaches is claimed, in their order. -/
theorem claimAll_ids (run : claimAll env worker lease rows db = .ok (claims, db')) :
    claims.map (·.scheduleId) = rows.map Prod.fst := by
  induction rows generalizing claims db with
  | nil =>
    cases run
    rfl
  | cons row rows ih =>
    obtain ⟨⟨first, mid⟩, claimed, run⟩ := seq_eq_ok.mp run
    obtain ⟨⟨rest, last⟩, loop, finish⟩ := seq_eq_ok.mp run
    obtain ⟨written, -, done⟩ := seq_eq_ok.mp claimed
    cases finish
    cases done
    rw [List.map_cons, List.map_cons, ih loop]

theorem claimSchedules_ids {worker : Option String} {limit : ℤ} {lease : Option ℤ}
    (run : claimSchedules env worker (some limit) lease db = .ok (claims, db')) :
    1 ≤ limit ∧ claims.map (·.scheduleId) = ((dueSchedules env db).take limit.toNat).map Prod.fst := by
  simp only [claimSchedules, seq_eq_ok, ensure_eq_ok] at run
  obtain ⟨_, -, _, valid, run⟩ := run
  have within : 1 ≤ limit ∧ limit ≤ 100 := by simpa using valid.2.1
  exact ⟨within.1, claimAll_ids run⟩

end Claims

namespace Scheduler

variable {site : Site} {engine : SchedulerEngine} {reapLimit : ℤ} {env : Env} {w w' : World} {b : Batch}
  {left : List ClaimedSchedule} {c : ClaimedSchedule} {e : SqlError}

section Statement

/-- The schedules that were due when the batch was claimed. -/
def Batch.due (b : Batch) : List (Uuid × Schedule) := dueSchedules b.env b.seen

/-- Every claim got its call. -/
def Batch.Complete (engine : SchedulerEngine) (b : Batch) : Prop := b.called = b.claims.map fun c => (c, engine.callFor c)

/-- A call that is rejected keeps no schedule that was due from its own call. -/
def Batch.Attends (b : Batch) : Prop := b.rejected.isSome = true → ∀ d ∈ b.due, d.1 ∈ b.called.map (·.1.scheduleId)

/-- The runtime has not failed, and the housekeeper goes on. -/
structure World.KeepsHouse (w : World) : Prop where
  state : w.runtime.state ≠ .failed
  going : w.runtime.stopRequested = false
  phase : w.phase ≠ .returned

/-- No claim of a batch misses its call for the call of another one, and only an error of a tick or of a claim stops the
housekeeper. -/
structure World.Isolates (engine : SchedulerEngine) (w : World) : Prop where
  complete : ∀ b ∈ w.batches, b.Complete engine
  attends : ∀ b ∈ w.batches, b.Attends
  house : w.KeepsHouse ∨ ∃ e ∈ w.faults, fatal e = true

/-- The rejected call of a claim that can harm no other one. -/
structure Batch.Spares (engine : SchedulerEngine) (b : Batch) (c : ClaimedSchedule) (e : SqlError) : Prop where
  last : b.claims.getLast? = some c
  retryable : fatal e = false
  room : b.due.length ≤ engine.claimLimit.toNat

/-- Every rejected call is one. -/
def World.Spared (engine : SchedulerEngine) (w : World) : Prop :=
  ∀ b ∈ w.batches, ∀ c e, b.rejected = some (c, e) → b.Spares engine c e

end Statement

section Invariant

/-- What a batch has done, with the claims that are left. -/
structure Batch.Recorded (engine : SchedulerEngine) (b : Batch) (left : List ClaimedSchedule) : Prop where
  split : b.claims = b.called.map Prod.fst ++ left
  own : ∀ p ∈ b.called, p.2 = engine.callFor p.1
  ids : b.claims.map (·.scheduleId) = (b.due.take engine.claimLimit.toNat).map Prod.fst

/-- A batch that is over: it has no claims left, or its last call was rejected. -/
structure Batch.Over (engine : SchedulerEngine) (b : Batch) (left : List ClaimedSchedule) : Prop extends
    b.Recorded engine left where
  finished : b.rejected = none → left = []
  broken : ∀ c e, b.rejected = some (c, e) → b.called.getLast? = some (c, engine.callFor c)

/-- A tick or a claim failed for good. -/
def World.Faulted (w : World) : Prop := ∃ e ∈ w.faults, fatal e = true

/-- A call of a batch did. -/
def World.Broken (w : World) : Prop := ∃ b ∈ w.batches, ∃ c e, b.rejected = some (c, e) ∧ fatal e = true

structure World.Sound (engine : SchedulerEngine) (w : World) : Prop where
  closed : ∀ b ∈ w.batches, ∃ left, b.Over engine left
  working : ∀ left b, w.phase = .working left b → b.Recorded engine left ∧ b.rejected = none
  house : (w.KeepsHouse ∧ ¬w.Faulted ∧ ¬w.Broken) ∨
    (w.phase = .returned ∧ (w.Faulted ∧ ¬w.Broken ∨ w.Broken ∧ ¬w.Faulted))

theorem Batch.Recorded.nodup (recorded : b.Recorded engine left) : b.claims.Nodup := by
  refine List.Nodup.of_map (·.scheduleId) ?_
  rw [recorded.ids]
  exact (Table.selectBy_keys_nodup _ _ _).sublist ((List.take_sublist _ _).map _)

theorem Batch.Recorded.complete (recorded : b.Recorded engine []) : b.Complete engine := by
  have claims : b.claims = b.called.map Prod.fst := by rw [recorded.split, List.append_nil]
  unfold Batch.Complete
  rw [claims, List.map_map]
  conv_lhs => rw [← List.map_id b.called]
  refine List.map_congr_left fun p member => ?_
  exact Prod.ext rfl (recorded.own p member)

/-- A round that ends well, or with an error that it is worth trying again after, keeps the housekeeper. -/
theorem World.KeepsHouse.ended {r : Option SqlError} (keeps : w.KeepsHouse) (calm : ∀ e, r = some e → fatal e = false) :
    (w.ended r).KeepsHouse := by
  cases r with
  | none =>
    refine ⟨?_, keeps.going, by rintro ⟨⟩⟩
    simp only [World.ended, TaskqRuntime.ticked]
    split_ifs
    · rintro ⟨⟩
    · exact keeps.state
  | some e =>
    have calm : fatal e = false := calm e rfl
    have same : (w.runtime.ticked (some e)) = ({ w.runtime with
        housekeeperFailures := w.runtime.housekeeperFailures + 1, housekeeperHealthy := false, state := .degraded }, .sleeping) := by
      simp [TaskqRuntime.ticked, calm]
    refine ⟨?_, ?_, ?_⟩ <;> rw [World.ended, same]
    · rintro ⟨⟩
    · exact keeps.going
    · rintro ⟨⟩

theorem World.ended_returned (grave : fatal e = true) : (w.ended (some e)).phase = .returned := by
  simp [World.ended, TaskqRuntime.ticked, grave]

theorem World.ended_idle {r : Option SqlError} : ∀ left b, (w.ended r).phase ≠ .working left b := by
  intro left b
  cases r with
  | none => rintro ⟨⟩
  | some e =>
    simp only [World.ended, TaskqRuntime.ticked]
    split_ifs <;> rintro ⟨⟩

theorem World.Sound.going (sound : w.Sound engine) (on : w.phase ≠ .returned) : w.KeepsHouse ∧ ¬w.Faulted ∧ ¬w.Broken :=
  sound.house.resolve_right fun returned => on returned.1

/-- The end of a round, with what it recorded. -/
theorem World.Sound.ended {r : Option SqlError} (closed : ∀ b ∈ w.batches, ∃ left, b.Over engine left) (keeps : w.KeepsHouse)
    (calm : (∀ e, r = some e → fatal e = false) → ¬w.Faulted ∧ ¬w.Broken)
    (grave : ∀ e, r = some e → fatal e = true → w.Faulted ∧ ¬w.Broken ∨ w.Broken ∧ ¬w.Faulted) :
    (w.ended r).Sound engine where
  closed := closed
  working left b here := absurd here (World.ended_idle left b)
  house := by
    by_cases quiet : ∀ e, r = some e → fatal e = false
    · exact .inl ⟨keeps.ended quiet, calm quiet⟩
    · obtain ⟨e, quiet⟩ := not_forall.mp quiet
      obtain ⟨rfl, loud⟩ := Classical.not_imp.mp quiet
      have loud : fatal e = true := (Bool.not_eq_false _).mp loud
      exact .inr ⟨World.ended_returned loud, grave e rfl loud⟩

/-- A tick or a claim is rejected. -/
theorem World.Sound.faulted (sound : w.Sound engine) (on : w.phase ≠ .returned) :
    (World.ended { w with faults := w.faults ++ [e] } (some e)).Sound engine := by
  obtain ⟨keeps, clean, whole⟩ := sound.going on
  have whole' : ¬World.Broken { w with faults := w.faults ++ [e] } := whole
  refine .ended sound.closed ⟨keeps.state, keeps.going, keeps.phase⟩ (fun quiet => ⟨?_, whole'⟩)
    fun e' same loud => .inl ⟨⟨e', ?_, loud⟩, whole'⟩
  · rintro ⟨e', member, loud⟩
    obtain member | member := List.mem_append.mp member
    · exact clean ⟨e', member, loud⟩
    · rw [List.mem_singleton.mp member, quiet e rfl] at loud
      cases loud
  · cases same
    exact List.mem_append_right _ (List.mem_singleton_self _)

/-- A batch is over. -/
theorem World.Sound.finished (sound : w.Sound engine) (on : w.phase ≠ .returned) (closes : b.Over engine left) :
    (World.ended { w with batches := w.batches ++ [b] } (b.rejected.map (·.2))).Sound engine := by
  obtain ⟨keeps, clean, whole⟩ := sound.going on
  have clean' : ¬World.Faulted { w with batches := w.batches ++ [b] } := clean
  refine .ended (fun b' member => ?_) ⟨keeps.state, keeps.going, keeps.phase⟩ (fun quiet => ⟨clean', ?_⟩)
    fun e same loud => .inr ⟨?_, clean'⟩
  · obtain member | member := List.mem_append.mp member
    · exact sound.closed b' member
    · exact List.mem_singleton.mp member ▸ ⟨left, closes⟩
  · rintro ⟨b', member, c, e, rejected, loud⟩
    obtain member | member := List.mem_append.mp member
    · exact whole ⟨b', member, c, e, rejected, loud⟩
    · rw [List.mem_singleton.mp member] at rejected
      rw [quiet e (by rw [rejected]; rfl)] at loud
      cases loud
  · obtain ⟨⟨c, e'⟩, rejected, rfl⟩ := Option.map_eq_some_iff.mp same
    exact ⟨b, List.mem_append_right _ (List.mem_singleton_self _), c, e', rejected, loud⟩

/-- A call of the housekeeper commits. -/
theorem World.Sound.committed {db : Db} {phase : Phase} (sound : w.Sound engine) (on : w.phase ≠ .returned)
    (goes : phase ≠ .returned) (working : ∀ left b, phase = .working left b → b.Recorded engine left ∧ b.rejected = none) :
    (w.committed env db phase).Sound engine where
  closed := sound.closed
  working := working
  house := by
    obtain ⟨keeps, clean, whole⟩ := sound.going on
    exact .inl ⟨⟨keeps.state, keeps.going, goes⟩, clean, whole⟩

/-- The call of the next claim is made. -/
theorem Batch.Recorded.call (recorded : b.Recorded engine (c :: left)) :
    Batch.Recorded engine { b with called := b.called ++ [(c, engine.callFor c)] } left where
  split := by simp [recorded.split]
  own p member := by
    obtain member | member := List.mem_append.mp member
    · exact recorded.own p member
    · rw [List.mem_singleton.mp member]
  ids := recorded.ids

theorem World.Sound.advance (sound : w.Sound engine) : (w.advance engine reapLimit env).Sound engine := by
  unfold World.advance
  cases here : w.phase with
  | returned => exact sound
  | sleeping =>
    have on : w.phase ≠ .returned := by simp [here]
    dsimp only
    rw [if_neg (by simp [(sound.going on).1.going])]
    cases run : (Command.tick (some reapLimit)).exec env w.server.db with
    | ok db => exact sound.committed on (by rintro ⟨⟩) (by rintro _ _ ⟨⟩)
    | error e => exact sound.faulted on
  | claiming =>
    have on : w.phase ≠ .returned := by simp [here]
    dsimp only
    cases run : claimSchedules env (some engine.workerId) (some engine.claimLimit) (some engine.leaseSeconds) w.server.db with
    | ok answer =>
      obtain ⟨claims, db⟩ := answer
      refine sound.committed on (by rintro ⟨⟩) ?_
      rintro _ _ ⟨⟩
      exact ⟨⟨rfl, by rintro _ ⟨⟩, (claimSchedules_ids run).2⟩, rfl⟩
    | error e => exact sound.faulted on
  | working left b =>
    have on : w.phase ≠ .returned := by simp [here]
    obtain ⟨recorded, unbroken⟩ := sound.working left b here
    cases left with
    | nil =>
      have closes : b.Over engine [] := ⟨recorded, fun _ => rfl, fun c e rejected => by cases unbroken.symm.trans rejected⟩
      have ends := sound.finished on closes
      rw [unbroken] at ends
      exact ends
    | cons c left =>
      dsimp only
      cases run : (engine.callFor c).exec env w.server.db with
      | ok db =>
        refine sound.committed on (by rintro ⟨⟩) ?_
        rintro _ _ ⟨⟩
        exact ⟨recorded.call, unbroken⟩
      | error e =>
        have called := recorded.call
        have closes : Batch.Over engine { b with called := b.called ++ [(c, engine.callFor c)], rejected := some (c, e) } left :=
          ⟨⟨called.split, called.own, called.ids⟩, by rintro ⟨⟩, by rintro _ _ ⟨⟩; exact List.getLast?_concat⟩
        exact sound.finished on closes

theorem World.Run.sound {server : System} (run : World.Run site engine reapLimit (.starting server) w) : w.Sound engine := by
  induction run with
  | refl => exact ⟨by rintro _ ⟨⟩, by rintro _ _ ⟨⟩,
      .inl ⟨⟨by rintro ⟨⟩, rfl, by rintro ⟨⟩⟩, by rintro ⟨_, ⟨⟩, -⟩, by rintro ⟨_, ⟨⟩, -⟩⟩⟩
  | tail _ step sound =>
    cases step with
    | other step => exact ⟨sound.closed, sound.working, sound.house.imp
        (fun both => ⟨⟨both.1.state, both.1.going, both.1.phase⟩, both.2⟩) id⟩
    | housekeeper server fresh => exact sound.advance

end Invariant

/-- A batch is isolated exactly when a rejected call of it is one that can harm no other claim. -/
theorem batch_faults_isolated {server : System} (run : World.Run site engine reapLimit (.starting server) w) :
    w.Isolates engine ↔ w.Spared engine := by
  have sound := run.sound
  constructor
  · intro isolates b member c e rejected
    obtain ⟨left, closes⟩ := sound.closed b member
    have claims : b.called.map Prod.fst = b.claims := by
      rw [isolates.complete b member, List.map_map]
      exact List.map_id b.claims
    refine ⟨?_, ?_, ?_⟩
    · rw [← claims, List.getLast?_map, closes.broken c e rejected]
      rfl
    · by_contra loud
      have broken : w.Broken := ⟨b, member, c, e, rejected, (Bool.not_eq_false _).mp loud⟩
      obtain ⟨-, -, whole⟩ | ⟨returned, faulted⟩ := sound.house
      · exact whole broken
      · obtain keeps | fault := isolates.house
        · exact keeps.phase returned
        · exact faulted.elim (fun both => both.2 broken) fun both => both.2 fault
    · have nodup : (b.due.map Prod.fst).Nodup := Table.selectBy_keys_nodup _ _ _
      have inside : b.due.map Prod.fst ⊆ (b.due.take engine.claimLimit.toNat).map Prod.fst := by
        rw [← closes.ids, ← claims, List.map_map]
        intro id there
        obtain ⟨d, due, rfl⟩ := List.mem_map.mp there
        exact isolates.attends b member (by rw [rejected]; rfl) d due
      have few := (nodup.subperm inside).length_le
      rw [List.length_map, List.length_map, List.length_take] at few
      exact few.trans (Nat.min_le_left _ _)
  · intro spared
    have whole (b : Batch) (member : b ∈ w.batches) : b.Recorded engine [] := by
      obtain ⟨left, closes⟩ := sound.closed b member
      cases rejected : b.rejected with
      | none => exact closes.finished rejected ▸ closes.toRecorded
      | some broken =>
        obtain ⟨c, e⟩ := broken
        have last := (spared b member c e rejected).last
        have called : c ∈ b.called.map Prod.fst :=
          List.mem_map_of_mem (List.mem_of_getLast? (closes.broken c e rejected))
        cases left.eq_nil_or_concat with
        | inl empty => exact empty ▸ closes.toRecorded
        | inr more =>
          obtain ⟨init, d, more⟩ := more
          rw [List.concat_eq_append] at more
          subst more
          have nodup := closes.nodup
          rw [closes.split, ← List.append_assoc, List.getLast?_concat] at last
          cases last
          rw [closes.split] at nodup
          exact absurd rfl ((List.nodup_append.mp nodup).2.2 c called c (List.mem_append_right _ (List.mem_singleton_self _)))
    refine ⟨fun b member => (whole b member).complete, fun b member rejected d due => ?_, ?_⟩
    · obtain ⟨⟨c, e⟩, rejected⟩ := Option.isSome_iff_exists.mp rejected
      have room := (spared b member c e rejected).room
      have claims := (whole b member).split
      rw [List.append_nil] at claims
      have ids := (whole b member).ids
      rw [List.take_of_length_le room, claims, List.map_map] at ids
      exact (congrArg (d.1 ∈ ·) ids).mpr (List.mem_map_of_mem due)
    · obtain ⟨keeps, -⟩ | ⟨-, ⟨fault, -⟩ | ⟨⟨b, member, c, e, rejected, loud⟩, -⟩⟩ := sound.house
      · exact .inl keeps
      · exact .inr fault
      · cases loud.symm.trans (spared b member c e rejected).retryable

/-- A schedule of one job a minute, with a base of the retry delay of its jobs. -/
def everyMinuteWith (backoffBase : ℤ) (policy : CatchupPolicy) : Jsonb :=
  .build [("target", .build [("kind", .str "job"), ("queue", .str "q"), ("job_type", .str "t"),
      ("backoff_base", .ofInt backoffBase)]),
    ("recurrence", .build [("kind", .str "interval"), ("interval_seconds", .ofInt 60)]),
    ("catchup_policy", .str policy.text), ("max_catchup", .ofInt 1)]

def tenAtOnce : SchedulerEngine := ⟨.only (.daily 0) utc, fun _ _ => 0, "w", 10, 60, 30⟩

/-- Two schedules are put and compiled, and a minute later the housekeeper claims both and makes some of its calls. -/
def twoSchedules (before : List Command) (first : Jsonb) (calls : ℕ) : List (Time × Option Command) :=
  let configured : List Command := before ++ [.putSchedule (some "a") first (some "op") none,
    .putSchedule (some "b") (everyMinuteWith 1 .fireAll) (some "op") none]
  configured.map (fun command => (0, some command)) ++ List.replicate 6 (0, none) ++
    List.replicate (2 + calls) (60000000, none)

/-- A queue for one job, which it has. -/
def fullQueue : List Command :=
  [.ensureQueue (some "q") (some (.build [("max_depth", .ofInt 1)])), .enqueue (.simple "q")]

/-- The first schedule skips what it missed. The queue is full: the call for the second schedule is rejected, and its error
is worth another try. -/
theorem batch_faults_isolated_full : ∃ w : World,
    World.Run .digits tenAtOnce 1000 (.starting (.installed .digits 0)) w ∧ w.runtime.state = .degraded ∧
    w.Isolates tenAtOnce ∧ ∃ b ∈ w.batches, b.rejected.isSome = true := by
  have played : (World.play .digits tenAtOnce 1000 (twoSchedules fullQueue (everyMinuteWith 1 .skip) 2)
      (.starting (.installed .digits 0))).any (fun w => w.runtime.state = .degraded &&
        w.batches.any (·.rejected.isSome) && w.batches.all fun b => b.rejected.all fun r =>
          (b.claims.getLast? = some r.1 : Bool) && !fatal r.2 && decide (b.due.length ≤ 10)) = true := by
    decide +kernel
  obtain ⟨w, run, there⟩ := (Option.any_eq_true _ _).mp played
  simp only [Bool.and_eq_true, decide_eq_true_eq, List.any_eq_true, List.all_eq_true] at there
  obtain ⟨⟨state, broken⟩, harmless⟩ := there
  have run := World.play_run run
  refine ⟨w, run, state, (batch_faults_isolated run).mpr fun b member c e rejected => ?_, broken⟩
  have spares := harmless b member
  rw [rejected] at spares
  simp only [Option.all_some, Bool.and_eq_true, decide_eq_true_eq, Bool.not_eq_true'] at spares
  exact ⟨spares.1.1, spares.1.2, spares.2⟩

/-- The first schedule names a base that the enqueue refuses: the second one never gets its call, and the runtime fails. -/
theorem batch_faults_isolated_poisoned : ∃ w : World,
    World.Run .digits tenAtOnce 1000 (.starting (.installed .digits 0)) w ∧ w.runtime.state = .failed ∧
    w.phase = .returned ∧ w.faults = [] ∧ ¬w.Isolates tenAtOnce ∧ ∃ b ∈ w.batches, b.claims.map (·.name) = ["a", "b"] ∧
      b.called.map (·.1.name) = ["a"] ∧ (b.rejected.map (·.2)) = some (tq422 "backoff_base must be 1..86400") := by
  have played : (World.play .digits tenAtOnce 1000 (twoSchedules [.ensureQueue (some "q") none]
      (everyMinuteWith 0 .fireAll) 1) (.starting (.installed .digits 0))).any (fun w => w.runtime.state = .failed &&
        w.faults.isEmpty && w.batches.any fun b =>
          (b.claims.map (·.name) = ["a", "b"] : Bool) && (b.called.map (·.1.name) = ["a"] : Bool) &&
          ((b.rejected.map (·.2)) = some (tq422 "backoff_base must be 1..86400") : Bool)) = true := by
    decide +kernel
  obtain ⟨w, run, there⟩ := (Option.any_eq_true _ _).mp played
  simp only [Bool.and_eq_true, decide_eq_true_eq, List.any_eq_true, List.isEmpty_iff] at there
  obtain ⟨⟨failed, quiet⟩, b, member, ⟨claims, called⟩, rejected⟩ := there
  have run := World.play_run run
  have returned : w.phase = .returned := by
    obtain ⟨keeps, -⟩ | ⟨returned, -⟩ := run.sound.house
    · exact absurd failed keeps.state
    · exact returned
  refine ⟨w, run, failed, returned, quiet, fun isolates => ?_, b, member, claims, called, rejected⟩
  have one : b.called.length = 1 := by simpa using congrArg List.length called
  have two : b.claims.length = 2 := by simpa using congrArg List.length claims
  rw [isolates.complete b member, List.length_map, two] at one
  cases one

end Scheduler
end Taskq
