import Taskq.Claiming.Sessions

/-! The tables as a claim transaction sees them: the jobs that it has started run, and all else is as it is
committed. -/
namespace Taskq
open Relational

variable {env : Env} {args : ClaimArgs} {effects : List Effect} {effect : Effect} {db mid d : Db}

/-- The gates of a claim touch nothing that its candidates can tell. -/
theorem ClaimCall.gates_unseen {c : ClaimCall} {gate : Except ClaimBatch ℤ}
    (run : c.gates env db = .ok (gate, d)) : Unseen c.args.queue db d := by
  simp only [gates, seq_eq_ok] at run
  obtain ⟨-, -, ⟨retry, gated⟩, passed, run⟩ := run
  have unseen := breakerGate_unseen passed
  cases retry with
  | some n =>
    cases run
    exact unseen
  | none =>
    obtain ⟨-, -, run⟩ := seq_eq_ok.mp run
    split at run
    · cases run
      exact unseen
    · split at run
      · cases run
        exact unseen
      · exact unseen.trans (queueGate_unseen run)

/-- The jobs wait in the tables, each once. -/
structure Waiting (db : Db) (jobs : List (Uuid × Job)) : Prop where
  stored : ∀ e ∈ jobs, db.jobs.get? e.1 = some e.2 ∧ e.2.status = .queued
  nodup : (jobs.map Prod.fst).Nodup

/-- The second tables are the first with some jobs started. -/
structure Starts (jobs : List (Uuid × Job)) (db d : Db) : Prop where
  kept : ∀ id ∉ jobs.map Prod.fst, d.jobs.get? id = db.jobs.get? id
  runs : ∀ e ∈ jobs, ∃ row, d.jobs.get? e.1 = some row ∧ row.status = .running
  counts : ∀ p, Fixed p → runningOf p d.toCore = runningOf p db.toCore + jobs.countP fun e => p e.2.toJobRow
  settings : d.settings = db.settings
  workflows : d.workflows = db.workflows

theorem Waiting.of_kept {jobs : List (Uuid × Job)} (waiting : Waiting db jobs)
    (kept : ∀ id ∈ jobs.map Prod.fst, d.jobs.get? id = db.jobs.get? id) : Waiting d jobs :=
  ⟨fun e member => ⟨(kept e.1 (List.mem_map_of_mem member)).trans (waiting.stored e member).1,
    (waiting.stored e member).2⟩, waiting.nodup⟩

/-- The start of an attempt makes its job run. -/
theorem startAttempt_starts {id : Uuid} {job : Job} {claimed : ClaimedJob}
    (stored : db.jobs.get? id = some job) (queued : job.status = .queued)
    (run : startAttempt env args id job db = .ok (claimed, d)) : Starts [(id, job)] db d := by
  obtain ⟨-, row, _, _, _, _, running, identity, rfl⟩ := startAttempt_frame run
  refine ⟨fun other away => ?_, fun e member => ?_, fun p fixed => ?_, rfl, rfl⟩
  · exact Table.get?_put_of_ne _ _ (by simpa using away)
  · cases List.mem_singleton.mp member
    exact ⟨row, Table.get?_put_self _ _ _, running⟩
  · have count := Table.count_put_of_get? stored row fun _ j => j.status = .running && p j.toJobRow
    simp only [running, queued, fixed _ _ identity, decide_true, decide_false, reduceCtorEq, Bool.true_and,
      Bool.false_and, Bool.false_eq_true, if_false, add_zero] at count
    simp only [runningOf, List.countP_singleton]
    exact count

/-- The other jobs wait while the first one starts. -/
theorem Waiting.tail {id : Uuid} {job : Job} {claimed : ClaimedJob} {jobs : List (Uuid × Job)}
    (waiting : Waiting db ((id, job) :: jobs)) (run : startAttempt env args id job db = .ok (claimed, d)) :
    Waiting d jobs := by
  obtain ⟨here, queued⟩ := waiting.stored (id, job) List.mem_cons_self
  obtain ⟨fresh, nodup⟩ := List.nodup_cons.mp waiting.nodup
  have rest : Waiting db jobs := ⟨fun e member => waiting.stored e (List.mem_cons_of_mem _ member), nodup⟩
  refine rest.of_kept fun other member => (startAttempt_starts here queued run).kept other fun same => ?_
  rw [List.map_singleton, List.mem_singleton] at same
  exact fresh (same ▸ member)

theorem replay_starts (waiting : Waiting db (effects.filterMap Effect.started))
    (run : replay env args effects db = .ok d) : Starts (effects.filterMap Effect.started) db d := by
  induction effects generalizing db with
  | nil =>
    cases run
    exact ⟨fun _ _ => rfl, by simp, by simp, rfl, rfl⟩
  | cons effect effects ih =>
    obtain ⟨mid, first, rest⟩ := seq_eq_ok.mp run
    cases effect with
    | flow queue row =>
      cases first
      have same : Waiting (db.putFlow queue row) (effects.filterMap Effect.started) :=
        waiting.of_kept fun _ _ => rfl
      have later := ih same rest
      exact ⟨later.kept, later.runs, later.counts, later.settings, later.workflows⟩
    | token key tat =>
      cases first
      have same : Waiting { db with flowState := db.flowState.put key tat }
          (effects.filterMap Effect.started) := waiting.of_kept fun _ _ => rfl
      have later := ih same rest
      exact ⟨later.kept, later.runs, later.counts, later.settings, later.workflows⟩
    | start id job =>
      obtain ⟨claimed, start⟩ := map_snd_eq_ok.mp first
      have jobs : ((Effect.start id job :: effects).filterMap Effect.started) =
          (id, job) :: effects.filterMap Effect.started := rfl
      rw [jobs] at waiting ⊢
      obtain ⟨here, queued⟩ := waiting.stored (id, job) (by simp)
      have fresh := (List.nodup_cons.mp waiting.nodup).1
      have started := startAttempt_starts here queued start
      have left := waiting.tail start
      have later := ih left rest
      refine ⟨fun other away => ?_, fun e member => ?_, fun p fixed => ?_,
        later.settings.trans started.settings, later.workflows.trans started.workflows⟩
      · simp only [List.map_cons, List.mem_cons, not_or] at away
        exact (later.kept other away.2).trans (started.kept other (by simpa using away.1))
      · obtain rfl | member := List.mem_cons.mp member
        · obtain ⟨row, there, running⟩ := started.runs _ (List.mem_singleton_self _)
          exact ⟨row, (later.kept id fresh).trans there, running⟩
        · exact later.runs e member
      · rw [later.counts p fixed, started.counts p fixed, Nat.add_assoc, ← List.countP_append]
        rfl

/-- What runs after a claim's commit ran before or was started by it. -/
theorem Session.finish_runningOf {s : Session} {locked : Uuid → Bool} {p : JobRow → Bool}
    (waiting : Waiting db s.started) (next : s.finish locked db = some d) (fixed : Fixed p) :
    runningOf p d.toCore ≤ runningOf p db.toCore + s.started.countP fun e => p e.2.toJobRow := by
  obtain ⟨view, -, seen, ⟨-, rfl⟩ | ⟨-, n, reap⟩⟩ := finish_cases next
  · exact ((replay_starts waiting seen).counts p fixed).le
  · exact (reapExpired_runningOf_le reap fixed).trans ((replay_starts waiting seen).counts p fixed).le

end Taskq
