import Taskq.Lifecycle.Life

/-! The calls seen from the tables with triggers. A call is a sequence of statements: those on `jobs`,
which move the counters and the breaker of the job's queue, those of a claim on the breaker and the
token buckets, and statements that touch none of these. -/
namespace Taskq
open Relational

/-- What the triggers on `jobs` and the gates of a claim keep, and the limits that the gates read. -/
structure Meters where
  counters : Table String QueueCounters
  flows : Table String QueueFlow
  keys : Table String (Option ℚ)
  slots : Table String ℤ
  rates : Table String FlowLimit

def Db.meters (db : Db) : Meters :=
  ⟨db.queueCounters, db.queueFlow, db.flowState, db.concurrencyLimits, db.flowLimits⟩

/-- A statement on `jobs`, as the triggers see it. -/
inductive Logged where
  | insert (id : Uuid) (new : JobRow)
  | update (id : Uuid) (old new : JobRow)
  | delete (id : Uuid) (old : JobRow)
  deriving DecidableEq, Repr

/-- A statement that any call may make, and what it logs. -/
inductive JobStatement (env : Env) : List Logged → Db → Db → Prop
  | aside {db db' : Db} (jobs : db'.jobs = db.jobs) (meters : db'.meters = db.meters) :
      JobStatement env [] db db'
  | insert {db db' : Db} {id : Uuid} {new : JobRow} (run : insertJob env id new db = .ok (some db')) :
      JobStatement env [.insert id new] db db'
  | update {db db' : Db} {id : Uuid} {old : Job} {new : JobRow} (stored : db.jobs.get? id = some old)
      (kept : new.identity = old.identity) (run : writeJob env id old new db = .ok db') :
      JobStatement env [.update id old.toJobRow new] db db'
  | delete {db db' : Db} {id : Uuid} {old : Job} (stored : db.jobs.get? id = some old)
      (run : deleteJob env (id, old) db = .ok db') : JobStatement env [.delete id old.toJobRow] db db'

/-- A statement of a claim after the gate of its breaker: one that any call may make, or one on the buckets. -/
inductive ClaimStatement (env : Env) : List Logged → Db → Db → Prop
  | job {entries : List Logged} {db db' : Db} (statement : JobStatement env entries db db') :
      ClaimStatement env entries db db'
  | consume {db db' : Db} {queue : String} {q : Queue} {rate want : ℤ} {grant : Grant}
      (stored : db.queues.get? queue = some q) (rated : q.claimRatePerMinute = some rate)
      (run : flowConsumeQueue env queue rate (q.claimBurst.getD rate)
        (flowScale env db queue q.rampSeconds) want db = .ok (grant, db')) : ClaimStatement env [] db db'
  | key (key : String) (db : Db) : ClaimStatement env [] db (flowKeyAdmit env key db).2

/-- One statement of a call; a claim begins with the gate of the breaker. -/
inductive Statement (env : Env) : List Logged → Db → Db → Prop
  | body {entries : List Logged} {db db' : Db} (statement : ClaimStatement env entries db db') :
      Statement env entries db db'
  | gate {db db' : Db} {queue : String} {wait : Option ℤ}
      (run : breakerGate env queue db = .ok (wait, db')) : Statement env [] db db'

/-- Statements one after the other, with the log that they leave. -/
inductive Sequence (T : List Logged → Db → Db → Prop) : List Logged → Db → Db → Prop
  | nil (db : Db) : Sequence T [] db db
  | snoc {log entries : List Logged} {db mid db' : Db} (before : Sequence T log db mid)
      (last : T entries mid db') : Sequence T (log ++ entries) db db'

namespace Sequence

variable {T T' : List Logged → Db → Db → Prop} {log log' : List Logged} {db mid db' : Db}

theorem single {entries : List Logged} (statement : T entries db db') : Sequence T entries db db' :=
  .snoc (.nil db) statement

theorem trans (first : Sequence T log db mid) (second : Sequence T log' mid db') :
    Sequence T (log ++ log') db db' := by
  induction second with
  | nil => simpa using first
  | snoc _ last ih =>
    rw [← List.append_assoc]
    exact .snoc (ih first) last

/-- What an empty log and each statement satisfy, a log of statements satisfies. -/
theorem induction_on {P : List Logged → Db → Prop} (statements : Sequence T log db db')
    (initial : P [] db)
    (step : ∀ {log entries mid db'}, P log mid → T entries mid db' → P (log ++ entries) db') :
    P log db' := by
  induction statements with
  | nil => exact initial
  | snoc _ last ih => exact step (ih initial) last

theorem mono (statements : Sequence T log db db')
    (wider : ∀ {entries db db'}, T entries db db' → T' entries db db') : Sequence T' log db db' :=
  statements.induction_on (P := fun log db' => Sequence T' log db db') (.nil db)
    fun before last => .snoc before (wider last)

end Sequence

abbrev Statements (env : Env) : List Logged → Db → Db → Prop := Sequence (Statement env)

/-- The call is made of statements that any call may make. -/
def Logs (env : Env) (db db' : Db) : Prop := ∃ log, Sequence (JobStatement env) log db db'

namespace Logs

variable {env : Env} {db mid db' : Db}

theorem refl (db : Db) : Logs env db db := ⟨[], .nil db⟩

theorem single {entries : List Logged} (statement : JobStatement env entries db db') : Logs env db db' :=
  ⟨entries, .single statement⟩

theorem trans (first : Logs env db mid) (second : Logs env mid db') : Logs env db db' := by
  obtain ⟨log, first⟩ := first
  obtain ⟨log', second⟩ := second
  exact ⟨log ++ log', first.trans second⟩

theorem aside (jobs : db'.jobs = db.jobs) (meters : db'.meters = db.meters) : Logs env db db' :=
  .single (.aside jobs meters)

/-- A call that passes over no locked row makes the same statements. -/
theorem of_holding (logs : Logs env.holding db db') : Logs env db db' := by
  obtain ⟨log, statements⟩ := logs
  refine ⟨log, statements.mono fun last => ?_⟩
  cases last with
  | aside jobs meters => exact .aside jobs meters
  | insert run => exact .insert run
  | update stored kept run => exact .update stored kept run
  | delete stored run => exact .delete stored run

theorem statements (logs : Logs env db db') : ∃ log, Statements env log db db' :=
  logs.imp fun _ statements => statements.mono fun last => .body (.job last)

/-- A reflexive and transitive relation that every statement respects relates the ends. -/
theorem relates (logs : Logs env db db') {R : Db → Db → Prop} (refl : ∀ db, R db db)
    (trans : ∀ {db mid db'}, R db mid → R mid db' → R db db')
    (step : ∀ {entries db db'}, JobStatement env entries db db' → R db db') : R db db' := by
  obtain ⟨log, statements⟩ := logs
  exact statements.induction_on (P := fun _ db' => R db db') (refl db)
    fun before last => trans before (step last)

end Logs

end Taskq
