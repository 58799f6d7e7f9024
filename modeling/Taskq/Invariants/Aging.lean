import Taskq.Claiming.Gates

/-! The aging of a queue, where it is set, is positive in every reachable state. -/
namespace Taskq
open Relational

variable {env : Env} {db db' : Db}

/-- An aging that is set is positive. -/
def Db.AgesForward (db : Db) : Prop := ∀ queue flow, db.queueFlow.get? queue = some flow →
  flow.priorityAgingSeconds.all (0 < ·) = true

namespace Db.AgesForward

theorem of_meter (ages : db.AgesForward) (same : db'.meter = db.meter) : db'.AgesForward := by
  intro queue flow found
  have own := congrFun same queue
  simp only [Db.meter, found, Option.map_some] at own
  obtain ⟨was, before, pair⟩ := Option.map_eq_some_iff.mp own.symm
  rw [← (Prod.mk.inj pair).2]
  exact ages queue was before

theorem put (ages : db.AgesForward) {queue : String} {row : QueueFlow}
    (positive : row.priorityAgingSeconds.all (0 < ·) = true) : (db.putFlow queue row).AgesForward := by
  intro other flow found
  simp only [Db.putFlow, Table.get?_put] at found
  split_ifs at found
  · cases found
    exact positive
  · exact ages other flow found

/-- The row of a queue, or the one that is made for it. -/
theorem row (ages : db.AgesForward) (env : Env) (queue : String) :
    ((db.queueFlow.get? queue).getD (.fresh env.now)).priorityAgingSeconds.all (0 < ·) = true := by
  cases found : db.queueFlow.get? queue with
  | none => rfl
  | some flow => exact ages queue flow found

theorem consume (ages : db.AgesForward) {queue : String} {rate burst want : ℤ} {scale : ℚ} {grant : Grant}
    (run : flowConsumeQueue env queue rate burst scale want db = .ok (grant, db')) : db'.AgesForward := by
  have own := ages.row env queue
  simp only [flowConsumeQueue, seq_eq_ok] at run
  obtain ⟨available, -, run⟩ := run
  split at run
  · obtain ⟨_, -, finish⟩ := seq_eq_ok.mp run
    cases finish
    exact ages.put own
  · cases run
    exact (ages.put own).put own

theorem jobs {entries : List Logged} (ages : db.AgesForward) (statement : JobStatement env entries db db') :
    db'.AgesForward := by
  refine ages.of_meter ?_
  cases statement with
  | aside jobs meters =>
    have flows : db'.queueFlow = db.queueFlow := congrArg Meters.flows meters
    funext queue
    simp only [Db.meter, flows]
  | insert run =>
    obtain ⟨_, _, _, -, -, -, -, -, -, rfl⟩ := insertJob_frame run
    rfl
  | update stored kept run => exact writeJob_meter run
  | @delete _ _ id old stored run =>
    simp only [deleteJob, seq_eq_ok] at run
    obtain ⟨-, -, counts, -, done⟩ := run
    obtain ⟨counters, frame⟩ := countDeleted_frame env old.toJobRow { db with
      jobs := db.jobs.remove id
      attempts := db.attempts.keep fun _ a => a.jobId ≠ id
      deps := db.deps.filter fun e => e.1 ≠ id }
    rw [frame] at done
    cases done
    rfl

theorem statement {entries : List Logged} (ages : db.AgesForward) (statement : Statement env entries db db') :
    db'.AgesForward := by
  cases statement with
  | gate run => exact ages.of_meter (breakerGate_meter run)
  | body statement =>
    cases statement with
    | job statement => exact ages.jobs statement
    | consume _ _ run => exact ages.consume run
    | key key =>
      obtain ⟨keys, frame⟩ := flowKeyAdmit_frame env key db
      rw [frame]
      exact ages

theorem setting (ages : db.AgesForward) (setting : Setting env db db') : db'.AgesForward := by
  cases setting with
  | queues | slots | rates => exact ages
  | @flow queues queue row edit =>
    have own : (db.flowOf env queue).priorityAgingSeconds.all (0 < ·) = true := ages.row env queue
    have positive : row.priorityAgingSeconds.all (0 < ·) = true := by
      cases edit with
      | aging positive => exact positive
      | _ => exact own
    exact ages.put positive

end Db.AgesForward

theorem Command.agesForward {command : Command} (run : command.exec env db = .ok db') (ages : db.AgesForward) :
    db'.AgesForward := by
  obtain ⟨log, statements⟩ | setting := Command.exec_made run
  · exact statements.induction_on (P := fun _ db' => db'.AgesForward) ages fun before last => before.statement last
  · exact ages.setting setting

theorem System.Reachable.agesForward {site : Site} {allowed : System → Env → Command → Prop} {s : System}
    (reachable : System.Reachable site allowed s) : s.db.AgesForward :=
  reachable.induction (I := fun s => s.db.AgesForward) (fun _ _ _ found => nomatch found)
    fun ages _ step => Command.agesForward step.exec ages

end Taskq
