import Taskq.Library.Postconditions
import Taskq.Invariants.Identifiers
import Taskq.Lifecycle.Prefixes

/-! The texts that jobs, attempts, workflows, schedules and events store stay within their limits. -/
namespace Taskq
open Relational

/-- A stored text within a limit. -/
def Brief (limit : ℕ) (text : Option String) : Prop := ∀ s ∈ text, octetLength s ≤ limit

theorem Brief.none (limit : ℕ) : Brief limit none := fun _ absent => nomatch absent

theorem Brief.or {limit : ℕ} {first second : Option String} (left : Brief limit first) (right : Brief limit second) :
    Brief limit (first <|> second) := by
  cases first with
  | none => exact right
  | some s => exact left

theorem brief_storedText (text : Option String) : Brief 2048 (storedText text) := by
  intro s stored
  obtain ⟨t, -, rfl⟩ := Option.map_eq_some_iff.mp stored
  exact truncateUtf8_fits t 2048

/-- The texts of a job. -/
structure JobRow.Brief (r : JobRow) : Prop where
  error : Taskq.Brief 2048 r.error
  cancelReason : Taskq.Brief 2048 r.cancelReason

/-- Every stored text is within its limit. -/
structure Db.Brief (db : Db) : Prop where
  jobs : ∀ id job, db.jobs.get? id = some job → job.toJobRow.Brief
  attempts : ∀ id a, db.attempts.get? id = some a → Taskq.Brief 2048 a.error
  workflows : ∀ w r, db.workflows.get? w = some r → Taskq.Brief 2048 r.cancelReason
  schedules : ∀ id s, db.scheduling.schedules.get? id = some s → Taskq.Brief 2048 s.lastError
  events : ∀ e ∈ db.events, Taskq.Brief 500 e.message

/-- A row that is put has the property that all rows have. -/
theorem put_all {κ ρ : Type} [DecidableEq κ] {P : ρ → Prop} {t : Table κ ρ} (all : ∀ k r, t.get? k = some r → P r) (key : κ)
    {row : ρ} (new : P row) : ∀ k r, (t.put key row).get? k = some r → P r := by
  intro k r stored
  rw [Table.get?_put] at stored
  split_ifs at stored
  · cases stored
    exact new
  · exact all k r stored

section Statements

variable {env : Env} {id attempt : Uuid} {db : Db} {old : Job} {new : JobRow}

theorem Db.Brief.event (brief : db.Brief) (env : Env) (id : Uuid) (attempt : Option Uuid) (kind : String)
    (actor message : Option String) (data : Option Jsonb) : (insertEvent env id attempt kind actor message data db).Brief := by
  refine ⟨brief.jobs, brief.attempts, brief.workflows, brief.schedules, fun e there => ?_⟩
  obtain old | new := List.mem_append.mp there
  · exact brief.events e old
  · cases List.mem_singleton.mp new
    intro s stored
    obtain ⟨t, -, rfl⟩ := Option.map_eq_some_iff.mp stored
    exact truncateUtf8_fits t 500

theorem Db.Brief.putFlow (brief : db.Brief) (queue : String) (flow : QueueFlow) : (db.putFlow queue flow).Brief :=
  ⟨brief.jobs, brief.attempts, brief.workflows, brief.schedules, brief.events⟩

theorem breakerOnSettle_brief (brief : db.Brief) : Yields Db.Brief (breakerOnSettle env id new db) := by
  unfold breakerOnSettle
  split
  · exact yields_ok brief
  · split
    · exact yields_ok brief
    · split
      · unfold settleProbe
        split
        · exact yields_ok ((brief.putFlow _ _).event _ _ _ _ _ _ _)
        · refine yields_after fun probes => ?_
          split
          · exact yields_ok ((brief.putFlow _ _).event _ _ _ _ _ _ _)
          · exact yields_ok (brief.putFlow _ _)
      · exact yields_ok brief
      · unfold settleClosed
        refine yields_after fun latency => yields_after fun streak => yields_after fun rate => ?_
        dsimp only
        split
        · exact yields_after fun total => yields_ok ((brief.putFlow _ _).event _ _ _ _ _ _ _)
        · split
          · exact yields_ok brief
          · exact yields_ok (brief.putFlow _ _)

theorem countUpdated_brief (brief : db.Brief) (old new : JobRow) : (countUpdated env old new db).Brief := by
  unfold countUpdated
  split <;> exact ⟨brief.jobs, brief.attempts, brief.workflows, brief.schedules, brief.events⟩

theorem writeJob_brief (brief : db.Brief) (row : new.Brief) : Yields Db.Brief (writeJob env id old new db) := by
  unfold writeJob
  refine yields_after fun _ => Yields.seq (P := fun job => job.toJobRow = new) (fun _ => storeJob_toRow) fun job same =>
    yields_after fun _ => ?_
  have put : (db.putJob id job).Brief :=
    ⟨put_all (P := fun job : Job => job.toJobRow.Brief) brief.jobs id (same ▸ row), brief.attempts, brief.workflows,
      brief.schedules, brief.events⟩
  refine Yields.seq (P := Db.Brief) ?_ fun db brief => yields_after fun counts => yields_ok ?_
  · split
    · exact breakerOnSettle_brief put
    · exact yields_ok put
  · have counted : (countUpdated env old.toJobRow new db).Brief := countUpdated_brief brief _ _
    exact ⟨counted.jobs, counted.attempts, counted.workflows, counted.schedules, counted.events⟩

theorem updateJob_brief (brief : db.Brief) {f : JobRow → JobRow} (kept : ∀ r : JobRow, r.Brief → (f r).Brief) :
    Yields Db.Brief (updateJob env id f db) := by
  unfold updateJob
  split
  · exact yields_ok brief
  · rename_i old stored
    exact writeJob_brief brief (kept _ (brief.jobs id old stored))

theorem insertJob_brief (brief : db.Brief) (row : new.Brief) :
    Yields (fun inserted => ∀ db ∈ inserted, Db.Brief db) (insertJob env id new db) := by
  unfold insertJob
  refine yields_after fun _ => Yields.seq (P := fun job => job.toJobRow = new) (fun _ => storeJob_toRow) fun job same => ?_
  split
  · exact yields_ok fun _ absent => by cases absent
  · refine yields_after fun _ => yields_after fun _ => yields_after fun _ => yields_after fun _ => yields_after fun counts =>
      yields_ok fun inserted there => ?_
    cases there
    have jobs := put_all (P := fun job : Job => job.toJobRow.Brief) brief.jobs id (same ▸ row : job.toJobRow.Brief)
    exact ⟨jobs, brief.attempts, brief.workflows, brief.schedules, brief.events⟩

theorem updateAttempt_brief (brief : db.Brief) {f : Attempt → Attempt}
    (kept : ∀ a : Attempt, Brief 2048 a.error → Brief 2048 (f a).error) : (updateAttempt id f db).Brief := by
  unfold updateAttempt
  split
  · exact brief
  · rename_i a stored
    exact ⟨brief.jobs, put_all (P := fun a : Attempt => Brief 2048 a.error) brief.attempts id
      (kept a (brief.attempts id a stored)), brief.workflows, brief.schedules, brief.events⟩

theorem closeAttempt_brief (brief : db.Brief) {f : Attempt → Attempt}
    (kept : ∀ a : Attempt, Brief 2048 a.error → Brief 2048 (f a).error) : (closeAttempt id f db).Brief := by
  unfold closeAttempt
  split
  · exact brief
  · rename_i a stored
    split
    · exact ⟨brief.jobs, put_all (P := fun a : Attempt => Brief 2048 a.error) brief.attempts id
        (kept a (brief.attempts id a stored)), brief.workflows, brief.schedules, brief.events⟩
    · exact brief

theorem Db.Brief.dropOwnEdges (brief : db.Brief) (id : Uuid) : (dropOwnEdges id db).Brief :=
  ⟨brief.jobs, brief.attempts, brief.workflows, brief.schedules, brief.events⟩

theorem Db.Brief.notify (brief : db.Brief) (queue : String) : (notifyQueue queue db).Brief :=
  ⟨brief.jobs, brief.attempts, brief.workflows, brief.schedules, brief.events⟩

theorem Db.Brief.ite {db db' : Db} {p : Prop} [Decidable p] (yes : db.Brief) (no : db'.Brief) :
    (if p then db else db').Brief := by
  split_ifs <;> assumption

end Statements

/-- The state beside an answer. -/
abbrev Db.BriefAfter {α : Type} (answer : α × Db) : Prop := answer.2.Brief

section Events

variable {env : Env} {id : Uuid} {attempt : Option Uuid} {db : Db}

theorem brief_literal {limit : ℕ} {s : String} (short : octetLength s ≤ limit) : Brief limit (some s) := by
  rintro _ ⟨⟩
  exact short

theorem cancelDependent_brief (brief : db.Brief) (reason : String) (child : Uuid) :
    Yields Db.BriefAfter (cancelDependent env reason child db) := by
  unfold cancelDependent
  split
  · exact yields_ok brief
  · rename_i job found
    have row := brief.jobs child job (Option.filter_eq_some_iff.mp found).1
    have stored := brief_storedText (some reason)
    exact Yields.seq (writeJob_brief brief ⟨stored, row.cancelReason⟩) fun db brief =>
      yields_ok ((brief.dropOwnEdges child).event _ _ _ _ _ _ _)

theorem cancelDependentsLoop_brief (reason : String) (children : List Uuid) (brief : db.Brief) :
    Yields Db.BriefAfter (cancelDependentsLoop env reason children db) := by
  induction children generalizing db with
  | nil => exact yields_ok brief
  | cons child children ih =>
    exact (cancelDependent_brief brief reason child).seq fun ⟨_, db⟩ brief => (ih brief).seq fun ⟨_, db⟩ brief => yields_ok brief

theorem cancelDependents_brief (brief : db.Brief) (id : Uuid) (reason : String) (limit : Option ℤ) :
    Yields Db.BriefAfter (cancelDependents env id reason limit db) :=
  yields_after fun _ => cancelDependentsLoop_brief reason _ brief

theorem emitEvent_brief (brief : db.Brief) (kind : String) (actor message : Option String) (data : Option Jsonb) :
    Yields Db.Brief (emitEvent env id attempt kind actor message data db) := by
  have written := brief.event env id attempt kind actor message data
  unfold emitEvent
  dsimp only
  split
  · exact (cancelDependents_brief written _ _ _).seq fun ⟨_, db⟩ brief => yields_ok brief
  · split
    · exact (cancelDependents_brief written _ _ _).seq fun ⟨_, db⟩ brief => yields_ok brief
    · exact yields_ok written

end Events

section Housekeeping

variable {env : Env} {id : Uuid} {job : Job} {db : Db}

theorem settleExpired_brief (brief : db.Brief) (row : job.toJobRow.Brief) :
    Yields Db.Brief (settleExpired env id job db) := by
  have written : Brief 2048 (job.error <|> some "lease expired") := row.error.or (brief_literal (by decide))
  unfold settleExpired
  dsimp only
  split
  · exact Yields.seq (writeJob_brief brief ⟨row.error, row.cancelReason⟩) fun db brief => emitEvent_brief brief _ _ _ _
  · split
    · exact Yields.seq (writeJob_brief brief ⟨written, row.cancelReason⟩) fun db brief => emitEvent_brief brief _ _ _ _
    · exact yields_after fun _ => Yields.seq (writeJob_brief brief ⟨row.error, row.cancelReason⟩) fun db brief =>
        emitEvent_brief brief _ _ _ _

theorem reapJob_brief (brief : db.Brief) : Yields Db.BriefAfter (reapJob env id db) := by
  unfold reapJob
  split
  · exact yields_ok brief
  · rename_i job found
    have row := brief.jobs id job (Option.filter_eq_some_iff.mp found).1
    refine Yields.seq (settleExpired_brief ?_ row) fun db brief => yields_ok brief
    split
    · exact brief
    · exact closeAttempt_brief brief fun _ kept => kept

theorem reapAll_brief (ids : List Uuid) (brief : db.Brief) : Yields Db.BriefAfter (reapAll env ids db) := by
  induction ids generalizing db with
  | nil => exact yields_ok brief
  | cons id ids ih =>
    exact (reapJob_brief brief).seq fun ⟨_, db⟩ brief => (ih brief).seq fun ⟨_, db⟩ brief => yields_ok brief

theorem reapExpired_brief (brief : db.Brief) (limit : Option ℤ) : Yields Db.BriefAfter (reapExpired env limit db) :=
  reapAll_brief _ brief

theorem finalizeStraggler_brief (id : Uuid) (db : Db) (brief : db.Brief) :
    Yields Db.Brief (finalizeStraggler env id db) :=
  Yields.seq (updateJob_brief brief fun _ row => ⟨row.error, row.cancelReason⟩) fun _ brief => emitEvent_brief brief _ _ _ _

theorem finalizeCancelStragglers_brief (brief : db.Brief) (limit : Option ℤ) :
    Yields Db.BriefAfter (finalizeCancelStragglers env limit db) :=
  yields_after fun _ => Yields.seq (yields_forRows finalizeStraggler_brief brief) fun ⟨_, _⟩ brief => yields_ok brief

theorem expireTtlJob_brief (id : Uuid) (db : Db) (brief : db.Brief) : Yields Db.Brief (expireTtlJob env id db) :=
  Yields.seq (updateJob_brief brief fun _ row => ⟨row.error, row.cancelReason.or (brief_literal (by decide))⟩)
    fun _ brief => emitEvent_brief brief _ _ _ _

theorem expireTtl_brief (brief : db.Brief) (limit : Option ℤ) : Yields Db.BriefAfter (expireTtl env limit db) :=
  yields_after fun _ => Yields.seq (yields_forRows expireTtlJob_brief brief) fun ⟨_, _⟩ brief => yields_ok brief

theorem promoteChild_brief (parent child : Uuid) (db : Db) (brief : db.Brief) :
    Yields Db.Brief (promoteChild env parent child db) := by
  unfold promoteChild
  split
  · have erased : ({ db with deps := db.deps.erase (child, parent) } : Db).Brief :=
      ⟨brief.jobs, brief.attempts, brief.workflows, brief.schedules, brief.events⟩
    dsimp only
    split
    · exact yields_ok erased
    · rename_i job stored
      have row := brief.jobs child job stored
      split
      · exact Yields.seq (writeJob_brief erased ⟨row.error, row.cancelReason⟩) fun db brief =>
          yields_ok (.ite (brief.notify job.queue) brief)
      · exact yields_ok erased
  · exact yields_ok brief

theorem countEdge_brief (edge : ReadyEdge) (counted : ℤ × Db) (brief : counted.2.Brief) :
    Yields Db.BriefAfter (countEdge env edge counted) := by
  refine Yields.seq (P := Db.BriefAfter) ?_ fun ⟨_, db⟩ brief => yields_ok brief
  unfold finalizeEdge
  dsimp only
  split
  · exact Yields.seq (promoteChild_brief _ _ counted.2 brief) fun db brief => yields_ok brief
  · exact cancelDependents_brief brief _ _ _

theorem finalizeDepStragglers_brief (brief : db.Brief) (limit : Option ℤ) :
    Yields Db.BriefAfter (finalizeDepStragglers env limit db) :=
  yields_after fun _ => Yields.seq (yields_forRows countEdge_brief (I := Db.BriefAfter) (s := (0, db)) brief)
    fun ⟨_, _⟩ brief => yields_ok brief

end Housekeeping

section Operator

variable {env : Env} {id : Uuid} {job : Job} {db : Db}

theorem cancelJob_brief (brief : db.Brief) (actor reason : Option String) :
    Yields Db.BriefAfter (cancelJob env id actor reason db) := by
  unfold cancelJob
  split
  · exact yields_error
  · rename_i job stored
    have row := brief.jobs id job stored
    have asked := brief_storedText reason
    have cancelled := brief_storedText (some (reason.getD "cancelled by operator"))
    split
    · exact yields_ok brief
    · split
      · exact Yields.seq (writeJob_brief brief ⟨cancelled, asked⟩) fun db brief =>
          Yields.seq (emitEvent_brief (brief.dropOwnEdges id) _ _ _ _) fun db brief => yields_ok brief
      · exact Yields.seq (writeJob_brief brief ⟨row.error, asked⟩) fun db brief =>
          Yields.seq (emitEvent_brief brief _ _ _ _) fun db brief => yields_ok brief

theorem purgeQueued_brief (brief : db.Brief) (queue : String) (limit : Option ℤ) (actor reason : Option String) :
    Yields Db.BriefAfter (purgeQueued env queue limit actor reason db) := by
  have purged := brief_storedText (some (reason.getD "purged by operator"))
  have asked := brief_storedText reason
  have one (id : Uuid) (db : Db) (brief : db.Brief) : Yields Db.Brief (purgeJob env actor reason id db) :=
    Yields.seq (updateJob_brief brief fun _ _ => ⟨purged, asked⟩) fun _ brief => emitEvent_brief brief _ _ _ _
  exact yields_after fun _ => yields_after fun _ => Yields.seq (yields_forRows one brief) fun ⟨_, db⟩ brief => yields_ok brief

theorem backdateLease_brief (brief : db.Brief) (row : job.toJobRow.Brief) : Yields Db.Brief (backdateLease env id job db) :=
  writeJob_brief brief ⟨row.error, row.cancelReason⟩

theorem expireJob_brief (brief : db.Brief) (actor : Option String) : Yields Db.BriefAfter (expireJob env id actor db) := by
  unfold expireJob
  split
  · exact yields_error
  · rename_i job stored
    split
    · exact Yields.seq (backdateLease_brief brief (brief.jobs id job stored)) fun db brief =>
        Yields.seq (emitEvent_brief brief _ _ _ _) fun db brief =>
          Yields.seq (reapJob_brief brief) fun ⟨_, db⟩ brief => yields_ok brief
    · exact yields_ok brief

theorem backdateAll_brief (rows : List (Uuid × Job)) (known : ∀ e ∈ rows, e.2.toJobRow.Brief) (brief : db.Brief) :
    Yields Db.Brief (backdateAll env rows db) := by
  induction rows generalizing db with
  | nil => exact yields_ok brief
  | cons e rows ih =>
    obtain ⟨first, rest⟩ := List.forall_mem_cons.mp known
    exact Yields.seq (backdateLease_brief brief first) fun db brief => ih rest brief

theorem expireWorkerLeases_brief (brief : db.Brief) (worker : Option String) :
    Yields Db.BriefAfter (expireWorkerLeases env worker db) := by
  refine Yields.seq (backdateAll_brief _ (fun e held => ?_) brief) fun db brief =>
    Yields.seq (reapAll_brief _ brief) fun ⟨_, db⟩ brief => yields_ok brief
  exact brief.jobs e.1 e.2 (Table.mem_selectBy.mp held).1

theorem redriveJob_brief (brief : db.Brief) (actor : Option String) (resetProgress : Bool) :
    Yields Db.Brief (redriveJob env id actor resetProgress db) := by
  unfold redriveJob
  split
  · exact yields_error
  · rename_i job stored
    have row := brief.jobs id job stored
    exact yields_after fun _ => yields_after fun _ => Yields.seq
      (Yields.mapError (writeJob_brief brief ⟨row.error, Brief.none 2048⟩)) fun db brief =>
        Yields.seq (emitEvent_brief brief _ _ _ _) fun db brief => yields_ok (brief.notify job.queue)

theorem redriveOne_brief (brief : db.Brief) (actor : Option String) (smear : ℤ) :
    Yields Db.BriefAfter (redriveOne env actor smear id db) := by
  have redriven : Yields Db.Brief (do
      let db ← redriveJob env id actor false db
      if 0 < smear then updateJob env id (fun r => { r with scheduledAt := smearedAt env id smear }) db
      else .ok db) := by
    refine Yields.seq (redriveJob_brief brief _ _) fun db brief => ?_
    split
    · exact updateJob_brief brief fun _ row => ⟨row.error, row.cancelReason⟩
    · exact yields_ok brief
  unfold redriveOne
  dsimp only
  split
  · rename_i db' run
    exact yields_ok (redriven db' run)
  · split
    · exact yields_ok brief
    · exact yields_error

theorem redriveAll_brief (actor : Option String) (smear : ℤ) (ids : List Uuid) (brief : db.Brief) :
    Yields Db.BriefAfter (redriveAll env actor smear ids db) := by
  induction ids generalizing db with
  | nil => exact yields_ok brief
  | cons id ids ih =>
    exact Yields.seq (redriveOne_brief brief actor smear) fun ⟨_, db⟩ brief =>
      Yields.seq (ih brief) fun ⟨_, db⟩ brief => yields_ok brief

theorem redriveFailed_brief (brief : db.Brief) (queue : String) (limit : Option ℤ) (actor : Option String) (smear : Option ℤ) :
    Yields Db.BriefAfter (redriveFailed env queue limit actor smear db) :=
  yields_after fun _ => yields_after fun _ => redriveAll_brief _ _ _ brief

theorem runNow_brief (brief : db.Brief) (actor : Option String) : Yields Db.Brief (runNow env id actor db) := by
  unfold runNow
  split
  · exact yields_error
  · rename_i job stored
    have row := brief.jobs id job stored
    exact yields_after fun _ => Yields.seq (writeJob_brief brief ⟨row.error, row.cancelReason⟩) fun db brief =>
      Yields.seq (emitEvent_brief brief _ _ _ _) fun db brief => yields_ok (brief.notify job.queue)

theorem reprioritize_brief (brief : db.Brief) (priority : Option ℤ) (actor : Option String) :
    Yields Db.Brief (reprioritize env id priority actor db) := by
  refine yields_after fun _ => ?_
  split
  · exact yields_error
  · rename_i job stored
    have row := brief.jobs id job stored
    exact yields_after fun _ => Yields.seq (writeJob_brief brief ⟨row.error, row.cancelReason⟩) fun db brief =>
      emitEvent_brief brief _ _ _ _

end Operator

section Workflows

variable {env : Env} {w : Uuid} {r : WorkflowRow} {db : Db}

theorem writeWorkflow_brief (brief : db.Brief) (row : Brief 2048 r.cancelReason) :
    Yields Db.Brief (writeWorkflow w r db) := by
  refine Yields.seq (P := fun workflow => workflow.toWorkflowRow = r) (fun workflow run => ?_) fun workflow same =>
    yields_ok ⟨brief.jobs, brief.attempts, put_all (P := fun r : Workflow => Brief 2048 r.cancelReason) brief.workflows w
      (by rwa [same]), brief.schedules, brief.events⟩
  unfold storeWorkflow at run
  split at run <;> cases run
  rfl

theorem insertOrFindWorkflow_brief (brief : db.Brief) (row : Brief 2048 r.cancelReason) (same : WorkflowRow → Bool) :
    Yields Db.BriefAfter (insertOrFindWorkflow r same db) := by
  have minted : ({ db with nextUuid := db.nextUuid + 1 } : Db).Brief :=
    ⟨brief.jobs, brief.attempts, brief.workflows, brief.schedules, brief.events⟩
  unfold insertOrFindWorkflow
  dsimp only [newUuid]
  split
  · refine Yields.seq (P := Db.Brief) ?_ fun db brief => yields_ok brief
    exact yields_after fun _ => Yields.seq (writeWorkflow_brief minted row) fun db brief =>
      yields_ok ⟨brief.jobs, brief.attempts, brief.workflows, brief.schedules, brief.events⟩
  · exact yields_after fun _ => yields_ok minted

theorem createWorkflow_brief (brief : db.Brief) (key kind : Option String) (params : Option Jsonb)
    (queues : Option (List String)) (actor : Option String) :
    Yields Db.BriefAfter (createWorkflow env key kind params queues actor db) :=
  yields_after fun _ => yields_after fun _ => yields_after fun _ => yields_after fun _ => yields_after fun _ =>
    insertOrFindWorkflow_brief brief (Brief.none 2048) _

theorem createContinuationWorkflow_brief (brief : db.Brief) (key kind : Option String) (params : Option Jsonb)
    (queues : Option (List String)) (actor : Option String) (limit : Option ℤ) (policy : Option String) :
    Yields Db.BriefAfter (createContinuationWorkflow env key kind params queues actor limit policy db) :=
  yields_after fun _ => yields_after fun _ => insertOrFindWorkflow_brief brief (Brief.none 2048) _

theorem cancelMember_brief (id : Uuid) (db : Db) (brief : db.Brief) : Yields Db.Brief (cancelMember env id db) := by
  unfold cancelMember
  split
  · exact yields_ok brief
  · rename_i job found
    have row := brief.jobs id job (Option.filter_eq_some_iff.mp found).1
    have cancelled : Brief 2048 (some "workflow cancelled") := brief_literal (by decide)
    have asked := row.cancelReason.or cancelled
    have error := row.error.or cancelled
    split
    · exact Yields.seq (writeJob_brief brief ⟨row.error, asked⟩) fun db brief => yields_ok (brief.event _ _ _ _ _ _ _)
    · exact Yields.seq (writeJob_brief brief ⟨error, asked⟩) fun db brief =>
        yields_ok ((brief.dropOwnEdges id).event _ _ _ _ _ _ _)

theorem advanceWorkflows_brief (ws : List Uuid) (left : ℕ) (brief : db.Brief) :
    Yields Db.BriefAfter (advanceWorkflows env ws left db) := by
  induction ws generalizing db left with
  | nil => exact yields_ok brief
  | cons w ws ih =>
    refine Yields.seq (yields_forEach cancelMember_brief brief) fun db brief => ?_
    split
    · exact yields_ok brief
    · exact Yields.seq (ih _ brief) fun ⟨_, db⟩ brief => yields_ok brief

theorem advanceWorkflowCancellations_brief (brief : db.Brief) (limit : Option ℤ) :
    Yields Db.BriefAfter (advanceWorkflowCancellations env limit db) :=
  yields_after fun _ => Yields.seq (advanceWorkflows_brief _ _ brief) fun ⟨_, _⟩ brief => yields_ok brief

theorem cancelWorkflow_brief (brief : db.Brief) (actor reason : Option String) :
    Yields Db.BriefAfter (cancelWorkflow env w actor reason db) := by
  have asked := brief_storedText reason
  refine yields_after fun _ => yields_after fun _ => ?_
  split
  · exact yields_error
  · split
    · exact yields_ok brief
    · split
      · exact yields_ok brief
      · refine Yields.seq (writeWorkflow_brief brief asked) fun db brief =>
          Yields.seq (advanceWorkflowCancellations_brief brief _) fun advanced brief => ?_
        obtain ⟨_, db⟩ := advanced
        dsimp only
        split
        · exact yields_error
        · split
          · exact Yields.seq (writeWorkflow_brief brief asked) fun db brief => yields_ok brief
          · exact yields_ok brief

theorem sealWorkflow_brief (brief : db.Brief) (actor : Option String) :
    Yields Db.BriefAfter (sealWorkflow env w actor db) := by
  unfold sealWorkflow
  split
  · exact yields_error
  · rename_i workflow stored
    have row := brief.workflows w workflow stored
    split
    · exact yields_ok brief
    · refine Yields.seq (writeWorkflow_brief brief row) fun db brief => ?_
      split
      · exact yields_error
      · split
        · exact Yields.seq (writeWorkflow_brief brief row) fun db brief => yields_ok brief
        · exact yields_ok brief

theorem finalizeAll_brief (rows : List (Uuid × Workflow)) (known : ∀ e ∈ rows, Brief 2048 e.2.cancelReason)
    (brief : db.Brief) : Yields Db.BriefAfter (finalizeAll env rows db) := by
  induction rows generalizing db with
  | nil => exact yields_ok brief
  | cons e rows ih =>
    obtain ⟨first, rest⟩ := List.forall_mem_cons.mp known
    refine Yields.seq (P := Db.BriefAfter) ?_ fun ⟨_, db⟩ brief =>
      Yields.seq (ih rest brief) fun ⟨_, db⟩ brief => yields_ok brief
    unfold finalizeWorkflow
    split
    · exact yields_error
    · split <;> exact Yields.seq (writeWorkflow_brief brief first) fun db brief => yields_ok brief

theorem finalizeWorkflows_brief (brief : db.Brief) (limit : Option ℤ) :
    Yields Db.BriefAfter (finalizeWorkflows env limit db) :=
  yields_after fun _ => finalizeAll_brief _ (fun e there =>
    brief.workflows e.1 e.2 (Table.mem_selectBy.mp (List.mem_of_mem_take there)).1) brief

end Workflows

end Taskq
