import Taskq.Contract.Lifecycles
import Taskq.Invariants.Dependencies

/-! Who waits on whom: the edges, the status and the counter of a job agree as long as no purge and no sweep over rows past
their time to live settles a blocked job, which leaves its edges behind. -/
namespace Taskq
open Relational

variable {site : Site} {allowed : System → Env → Command → Prop} {s : System} {env : Env} {db db' : Db}
  {command : Command}

section Runs

theorem System.Reachable.unasked (reachable : System.Reachable site allowed s) : BlockedUnasked s.db.toCore :=
  reachable.core (fun _ _ _ here => by cases here) fun unasked h => unasked.step h

/-- Runs whose calls strand no edge keep the bookkeeping. -/
theorem System.Reachable.linked (reachable : System.Reachable site allowed s)
    (permitted : ∀ {s env command}, allowed s env command → command.strands env s.db = false) : Linked s.db.toCore := by
  refine (reachable.induction (I := fun s => BlockedUnasked s.db.toCore ∧ Linked s.db.toCore) (fun now => ?_)
    fun {t u env command} ih calm next => ?_).2
  · exact ⟨fun _ _ here => (by cases here), fun _ _ edge => (by cases edge), fun _ _ here => (by cases here),
      fun _ _ here => (by cases here)⟩
  · obtain ⟨F, -, steps⟩ := next.steps
    exact ⟨steps.invariant (fun _ h unasked => unasked.step h) ih.1, Command.exec_linked next.exec ih.1 ih.2 (permitted calm)⟩

end Runs

end Taskq
