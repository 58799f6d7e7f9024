import Taskq.Invariants.Identifiers
import Taskq.Lifecycle.QueuePaths

/-! The queues over a run: the defaults of every queue are those of a checked profile. -/
namespace Taskq
open Relational

variable {site : Site} {allowed : System → Env → Command → Prop} {s : System}

theorem QueueWrite.profiled {db : Db} {queues : Table String Queue} (write : QueueWrite db queues)
    (profiled : ∀ name q, db.queues.get? name = some q → q.Profiled) :
    ∀ name q, queues.get? name = some q → q.Profiled := by
  intro name q stored
  cases write with
  | same => exact profiled name q stored
  | @write changed row edit =>
    rw [Table.get?_put] at stored
    split_ifs at stored with own
    · cases stored
      have before := profiled changed
      generalize db.queues.get? changed = old at edit before
      cases edit with
      | create good => exact good
      | profile good => exact good
      | pause defaults | bind defaults | change defaults => exact (before _ rfl).congr defaults
    · exact profiled name q stored

theorem System.Reachable.profiled (reachable : System.Reachable site allowed s) :
    ∀ name q, s.db.queues.get? name = some q → q.Profiled :=
  reachable.induction (I := fun s => ∀ name q, s.db.queues.get? name = some q → q.Profiled)
    (fun _ _ _ found => nomatch found) fun profiled _ step => (Command.exec_queues step.exec).profiled profiled

/-- A queue is never removed. -/
theorem System.Run.queue_stays {t : System} {name : String} (run : System.Run site allowed s t)
    (here : (s.db.queues.get? name).isSome) : (t.db.queues.get? name).isSome := by
  refine run.induction (I := fun t => (t.db.queues.get? name).isSome) here fun there _ step => ?_
  have write := Command.exec_queues step.exec
  generalize System.db _ = db at there write
  generalize Db.queues _ = queues at write ⊢
  cases write with
  | same => exact there
  | @write changed row edit =>
    rw [Table.get?_put]
    split_ifs
    · rfl
    · exact there

end Taskq
