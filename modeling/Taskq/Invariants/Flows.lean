import Taskq.Claiming.Calls
import Taskq.Invariants.Identifiers

/-! The token buckets over a run: only claims take tokens, and every registered flow key has a rate. -/
namespace Taskq
open Relational

section Buckets

/-- The stored arrival time of a queue's bucket. -/
def Db.tat (db : Db) (queue : String) : Option ℚ := (db.queueFlow.get? queue).bind (·.tat)

variable {env : Env} {id : Uuid} {old : Job} {new : JobRow} {flow : QueueFlow} {db db' : Db}

theorem Db.tat_putFlow (db : Db) (queue : String) (flow : QueueFlow) :
    (db.putFlow queue flow).tat = fun q => if q = queue then flow.tat else db.tat q := by
  funext q
  simp only [Db.tat, Db.putFlow, Table.get?_put]
  split_ifs <;> rfl

/-- A row that replaces the flow row of a queue and keeps its arrival time. -/
theorem Db.tat_kept {queue : String} (kept : flow.tat = db.tat queue) : (db.putFlow queue flow).tat = db.tat := by
  rw [Db.tat_putFlow]
  funext q
  split_ifs with same
  · rw [kept, same]
  · rfl

/-- What a settle leaves in the flow row of a queue: its arrival time and its aging. -/
def Db.meter (db : Db) (queue : String) : Option (Option ℚ × Option ℤ) :=
  (db.queueFlow.get? queue).map fun flow => (flow.tat, flow.priorityAgingSeconds)

theorem Db.meter_kept {queue : String} {row : QueueFlow} (found : db.queueFlow.get? queue = some flow)
    (tat : row.tat = flow.tat) (aging : row.priorityAgingSeconds = flow.priorityAgingSeconds) :
    (db.putFlow queue row).meter = db.meter := by
  funext q
  simp only [Db.meter, Db.putFlow, Table.get?_put]
  split_ifs with same
  · rw [same, found, Option.map_some, Option.map_some, tat, aging]
  · rfl

theorem Db.tat_of_meter (same : db'.meter = db.meter) : db'.tat = db.tat := by
  funext queue
  have own (db : Db) : db.tat queue = (db.meter queue).bind (·.1) := by
    simp only [Db.tat, Db.meter, Option.bind_map, Function.comp_def]
  rw [own, own, same]

theorem breakerOnSettle_meter (run : breakerOnSettle env id new db = .ok db') : db'.meter = db.meter := by
  unfold breakerOnSettle at run
  split at run
  · cases run
    rfl
  · rename_i flow found
    split at run
    · cases run
      rfl
    · split at run
      · unfold settleProbe at run
        split at run
        · cases run
          exact Db.meter_kept found rfl rfl
        · obtain ⟨probes, -, run⟩ := seq_eq_ok.mp run
          split at run <;> cases run <;> exact Db.meter_kept found rfl rfl
      · cases run
        rfl
      · simp only [settleClosed, seq_eq_ok] at run
        obtain ⟨latency, -, streak, -, rate, -, run⟩ := run
        split at run
        · obtain ⟨total, -, run⟩ := seq_eq_ok.mp run
          cases run
          exact Db.meter_kept found rfl rfl
        · split at run <;> cases run
          · rfl
          · exact Db.meter_kept found rfl rfl

theorem writeJob_meter (run : writeJob env id old new db = .ok db') : db'.meter = db.meter := by
  simp only [writeJob, seq_eq_ok] at run
  obtain ⟨-, -, job, -, -, -, settled, breaker, counts, -, done⟩ := run
  have same : settled.meter = db.meter := by
    split at breaker
    · exact (breakerOnSettle_meter breaker).trans rfl
    · cases breaker
      rfl
  obtain ⟨counters, frame⟩ := countUpdated_frame env old.toJobRow new settled
  rw [frame] at done
  cases done
  exact same

/-- What only claims change: the buckets of queues and of flow keys. -/
def Db.buckets (db : Db) : (String → Option ℚ) × Table String (Option ℚ) := (db.tat, db.flowState)

/-- The limits that claims read. -/
def Db.limits (db : Db) : Table String ℤ × Table String FlowLimit := (db.concurrencyLimits, db.flowLimits)

theorem JobStatement.keeps {entries : List Logged} (statement : JobStatement env entries db db') :
    db'.buckets = db.buckets ∧ db'.limits = db.limits := by
  cases statement with
  | aside jobs meters =>
    have flows : db'.queueFlow = db.queueFlow := congrArg Meters.flows meters
    have keys : db'.flowState = db.flowState := congrArg Meters.keys meters
    have same : db'.tat = db.tat := by
      funext queue
      simp only [Db.tat, flows]
    exact ⟨congrArg₂ Prod.mk same keys, congrArg (fun m => (m.slots, m.rates)) meters⟩
  | insert run =>
    obtain ⟨_, _, _, -, -, -, -, -, -, rfl⟩ := insertJob_frame run
    exact ⟨rfl, rfl⟩
  | update stored kept run =>
    have same := Db.tat_of_meter (writeJob_meter run)
    obtain ⟨_, _, _, _, _, -, -, -, rfl⟩ := writeJob_frame run
    exact ⟨congrArg (·, db.flowState) same, rfl⟩
  | @delete _ _ id old stored run =>
    simp only [deleteJob, seq_eq_ok] at run
    obtain ⟨-, -, counts, -, done⟩ := run
    obtain ⟨counters, frame⟩ := countDeleted_frame env old.toJobRow { db with
      jobs := db.jobs.remove id
      attempts := db.attempts.keep fun _ a => a.jobId ≠ id
      deps := db.deps.filter fun e => e.1 ≠ id }
    rw [frame] at done
    cases done
    exact ⟨rfl, rfl⟩

theorem Logs.keeps (logs : Logs env db db') : db'.buckets = db.buckets ∧ db'.limits = db.limits :=
  logs.relates (R := fun db db' => db'.buckets = db.buckets ∧ db'.limits = db.limits)
    (fun _ => ⟨rfl, rfl⟩) (fun first second => ⟨second.1.trans first.1, second.2.trans first.2⟩)
    JobStatement.keeps

theorem Statement.limits {entries : List Logged} (statement : Statement env entries db db') :
    db'.limits = db.limits := by
  cases statement with
  | gate run =>
    obtain ⟨flows, rfl⟩ := breakerGate_frame run
    rfl
  | body statement =>
    cases statement with
    | job statement => exact statement.keeps.2
    | consume _ _ run =>
      obtain ⟨flows, rfl⟩ := flowConsumeQueue_frame run
      rfl
    | key key =>
      obtain ⟨keys, frame⟩ := flowKeyAdmit_frame env key db
      rw [frame]
      rfl

theorem Setting.rated (setting : Setting env db db') (rated : db.Rated) : db'.Rated := by
  cases setting with
  | queues | slots | flow => exact rated
  | rates key positive =>
    intro other limit found
    simp only [Table.get?_put] at found
    split_ifs at found with same
    · cases found
      exact positive
    · exact rated other limit found

theorem Command.rated {command : Command} (run : command.exec env db = .ok db') (rated : db.Rated) :
    db'.Rated := by
  obtain ⟨log, statements⟩ | setting := Command.exec_made run
  · have same : db'.limits = db.limits :=
      statements.induction_on (P := fun _ db' => db'.limits = db.limits) rfl
        fun before last => last.limits.trans before
    exact rated.congr (congrArg Prod.snd same)
  · exact setting.rated rated

theorem System.Reachable.rated {site : Site} {allowed : System → Env → Command → Prop} {s : System}
    (reachable : System.Reachable site allowed s) : s.db.Rated :=
  reachable.induction (I := fun s => s.db.Rated) (fun _ _ _ found => nomatch found)
    fun rated _ step => Command.rated step.exec rated

end Buckets

end Taskq
