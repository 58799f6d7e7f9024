import Taskq.Invariants.Texts
import Taskq.Lifecycle.ClaimPaths
import Taskq.Model.Config
import Taskq.Model.Maintenance

/-! Settlements, claims, admissions, maintenance and settings keep the stored texts within their limits. -/
namespace Taskq
open Relational

/-- A fresh identifier changes no text. -/
theorem Db.Brief.minted {db : Db} (brief : db.Brief) : ({ db with nextUuid := db.nextUuid + 1 } : Db).Brief :=
  ⟨brief.jobs, brief.attempts, brief.workflows, brief.schedules, brief.events⟩

section Followups

variable {env : Env} {id : Uuid} {row : JobRow} {db : Db}

theorem insertFollowup_brief (f : Followup) (q : Queue) (new : row.Brief) (tries : ℕ) (brief : db.Brief) :
    Yields Db.BriefAfter (insertFollowup env f q row tries db) := by
  induction tries generalizing db with
  | zero => exact yields_error
  | succ tries ih =>
    unfold insertFollowup
    dsimp only [newUuid]
    refine Yields.seq (insertJob_brief brief.minted new) fun inserted brief' => ?_
    split
    · exact Yields.seq (emitEvent_brief (brief' _ rfl) _ _ _ _) fun db brief => yields_ok (.ite (brief.notify _) brief)
    · split
      · exact yields_after fun _ => yields_ok brief.minted
      · exact ih brief.minted

theorem enqueueFollowup_brief (parentQueue : String) (spec : Jsonb) (index : ℤ) (brief : db.Brief) :
    Yields Db.BriefAfter (enqueueFollowup env id parentQueue spec index db) := by
  have blank (f : Followup) (q : Queue) (parent : JobRow) (hash : Option String) :
      (f.row env q id parent hash).Brief := ⟨.none _, .none _⟩
  refine yields_after fun _ => yields_after fun _ => yields_after fun _ => yields_after fun _ => ?_
  split
  · exact yields_error
  · refine yields_after fun _ => yields_after fun f => ?_
    split
    · exact yields_error
    · split
      · exact yields_after fun _ => insertFollowup_brief f _ (blank f _ _ _) 3 brief
      · exact insertFollowup_brief f _ (blank f _ _ _) 3 brief

theorem enqueueFollowups_brief (parentQueue : String) (specs : List Jsonb) (index : ℤ) (brief : db.Brief) :
    Yields Db.Brief (enqueueFollowups env id parentQueue specs index db) := by
  induction specs generalizing db index with
  | nil => exact yields_ok brief
  | cons spec specs ih =>
    exact Yields.seq (enqueueFollowup_brief parentQueue spec index brief) fun ⟨_, db⟩ brief => ih _ brief

end Followups

section Settlements

variable {env : Env} {id attempt : Uuid} {job : Job} {worker : Option String} {db : Db}

theorem heartbeat_brief (lease : Option ℤ) (progress stats : Option Jsonb) (brief : db.Brief) :
    Yields Db.BriefAfter (heartbeat env id attempt worker lease progress stats db) := by
  refine yields_after fun _ => yields_after fun _ => yields_after fun _ => ?_
  split
  · exact yields_ok brief
  · rename_i job found
    have row := brief.jobs id job (runningJob_eq_some.mp (Option.filter_eq_some_iff.mp found).1).1
    refine Yields.seq (writeJob_brief brief ⟨row.error, row.cancelReason⟩) fun db brief => yields_ok ?_
    dsimp only [Db.BriefAfter]
    split
    · exact updateAttempt_brief brief fun _ kept => kept
    · exact brief

theorem settleSucceeded_brief (result stats : Option Jsonb) (specs : List Jsonb) (row : job.toJobRow.Brief)
    (brief : db.Brief) : Yields Db.BriefAfter (settleSucceeded env id attempt worker result stats specs job db) := by
  refine Yields.seq (writeJob_brief brief ⟨.none _, row.cancelReason⟩) fun db brief => ?_
  have closed : (closeAttempt attempt (fun a => { a with
      status := .succeeded, outcome := some "success", finishedAt := some env.now
      stats := stats <|> a.stats }) db).Brief := closeAttempt_brief brief fun _ kept => kept
  exact Yields.seq (yields_forEach (promoteChild_brief id) closed) fun db brief =>
    Yields.seq (emitEvent_brief brief _ _ _ _) fun db brief =>
      Yields.seq (enqueueFollowups_brief _ _ _ brief) fun db brief => yields_ok brief

theorem completeJob_brief (result stats followups : Option Jsonb) (brief : db.Brief) :
    Yields Db.BriefAfter (completeJob env id attempt worker result stats followups db) := by
  refine yields_after fun _ => ?_
  split
  · exact yields_ok brief
  · rename_i job stored
    have row := brief.jobs id job stored
    split
    · exact yields_ok brief
    · exact yields_after fun _ => yields_after fun _ => yields_after fun _ => settleSucceeded_brief _ _ _ row brief

theorem reserveWorkflowMembers_brief (w : Uuid) (count : ℤ) (policy : Option String) (brief : db.Brief) :
    Yields Db.Brief (reserveWorkflowMembers w count policy db) := by
  refine yields_after fun _ => ?_
  split
  · exact yields_error
  · refine yields_after fun _ => ?_
    dsimp only
    split
    · exact yields_ok brief
    · exact yields_error
    · split
      · exact yields_after fun _ =>
          yields_ok ⟨brief.jobs, brief.attempts, brief.workflows, brief.schedules, brief.events⟩
      · exact yields_error
    · exact yields_error

theorem reserveFollowups_brief (job : JobRow) (members : ℤ) (brief : db.Brief) :
    Yields Db.Brief (reserveFollowups job members db) := by
  unfold reserveFollowups
  split
  · split
    · exact reserveWorkflowMembers_brief _ _ _ brief
    · exact yields_ok brief
  · exact yields_ok brief

theorem completeJobWithPolicy_brief (result stats followups : Option Jsonb) (policy : Option String) (brief : db.Brief) :
    Yields Db.BriefAfter (completeJobWithPolicy env id attempt worker result stats followups policy db) := by
  refine yields_after fun _ => ?_
  split
  · exact yields_ok brief
  · rename_i job stored
    have row := brief.jobs id job stored
    split
    · exact yields_ok brief
    · exact yields_after fun _ => yields_after fun _ => yields_after fun _ =>
        Yields.seq (reserveFollowups_brief _ _ brief) fun db brief => settleSucceeded_brief _ _ _ row brief

theorem settleCancelled_brief {message : Option String} {written : JobRow → JobRow} {ledger : Attempt → Attempt}
    (kept : ∀ r : JobRow, r.Brief → (written r).Brief) (closing : ∀ a : Attempt, Brief 2048 a.error → Brief 2048 (ledger a).error)
    (row : job.toJobRow.Brief) (brief : db.Brief) :
    Yields Db.BriefAfter (settleCancelled env id attempt worker message written ledger job db) := by
  refine Yields.seq (writeJob_brief brief (kept _ ⟨row.error, row.cancelReason⟩)) fun db brief => ?_
  have closed : (closeAttempt attempt (fun a => ledger { a with
      status := .cancelled, outcome := some "canceled", finishedAt := some env.now }) db).Brief :=
    closeAttempt_brief brief fun a kept => closing _ kept
  exact Yields.seq (emitEvent_brief closed _ _ _ _) fun db brief => yields_ok brief

theorem scheduleRetry_brief (error : Option String) (retryAfter : Option ℤ) (progress : Option Jsonb)
    (row : job.toJobRow.Brief) (brief : db.Brief) :
    Yields Db.BriefAfter (scheduleRetry env id attempt worker error retryAfter progress job db) := by
  have stored := brief_storedText error
  refine yields_after fun _ => Yields.seq (writeJob_brief brief ⟨stored, row.cancelReason⟩) fun db brief => ?_
  have noted : (updateAttempt attempt (fun a => { a with outcome := some "retry_scheduled" }) db).Brief :=
    updateAttempt_brief brief fun _ kept => kept
  exact Yields.seq (emitEvent_brief noted _ _ _ _) fun db brief => yields_ok brief

theorem buryJob_brief (error : Option String) (retryable : Option Bool) (progress : Option Jsonb)
    (row : job.toJobRow.Brief) (brief : db.Brief) :
    Yields Db.BriefAfter (buryJob env id attempt worker error retryable progress job db) := by
  have stored := brief_storedText error
  refine Yields.seq (writeJob_brief brief ⟨stored, row.cancelReason⟩) fun db brief => ?_
  have noted : (updateAttempt attempt (fun a => { a with
      outcome := some (if retryable = some true then "retry_exhausted" else "non_retryable") }) db).Brief :=
    updateAttempt_brief brief fun _ kept => kept
  exact Yields.seq (emitEvent_brief noted _ _ _ _) fun db brief => yields_ok brief

theorem failJob_brief (error : Option String) (retryable : Option Bool) (retryAfter : Option ℤ)
    (progress stats : Option Jsonb) (brief : db.Brief) :
    Yields Db.BriefAfter (failJob env id attempt worker error retryable retryAfter progress stats db) := by
  have stored := brief_storedText error
  refine yields_after fun _ => yields_after fun _ => ?_
  split
  · exact yields_ok brief
  · rename_i job found
    have row := brief.jobs id job (runningJob_eq_some.mp found).1
    split
    · exact settleCancelled_brief (fun r row => ⟨stored, row.cancelReason⟩) (fun _ _ => stored) row brief
    · refine yields_after fun _ => ?_
      have closed : (closeAttempt attempt (fun a => { a with
          status := .failed, finishedAt := some env.now, error := storedText error
          stats := stats <|> a.stats }) db).Brief := closeAttempt_brief brief fun _ _ => stored
      dsimp only
      split
      · exact scheduleRetry_brief _ _ _ row closed
      · exact buryJob_brief _ _ _ row closed

theorem snoozeJob_brief (delay : Option ℤ) (reason : Option String) (progress : Option Jsonb) (brief : db.Brief) :
    Yields Db.BriefAfter (snoozeJob env id attempt worker delay reason progress db) := by
  have stored := brief_storedText reason
  refine yields_after fun _ => yields_after fun _ => yields_after fun _ => ?_
  dsimp only
  split
  · exact yields_ok brief
  · rename_i job found
    have row := brief.jobs id job (runningJob_eq_some.mp found).1
    refine Yields.seq (writeJob_brief brief ⟨row.error, row.cancelReason⟩) fun db brief => ?_
    split <;> exact Yields.seq (emitEvent_brief (closeAttempt_brief brief fun _ _ => stored) _ _ _ _) fun db brief =>
      yields_ok brief

theorem releaseJob_brief (cause : Option String) (delay : Option ℤ) (progress : Option Jsonb) (brief : db.Brief) :
    Yields Db.BriefAfter (releaseJob env id attempt worker cause delay progress db) := by
  refine yields_after fun _ => yields_after fun _ => ?_
  dsimp only
  split
  · exact yields_ok brief
  · rename_i job found
    have row := brief.jobs id job (runningJob_eq_some.mp found).1
    split
    · exact settleCancelled_brief (fun r row => ⟨row.error, row.cancelReason⟩) (fun _ kept => kept) row brief
    · refine Yields.seq (writeJob_brief brief ⟨row.error, row.cancelReason⟩) fun db brief => ?_
      have closed : (closeAttempt attempt (fun a => { a with
          status := .released, outcome := cause, finishedAt := some env.now }) db).Brief :=
        closeAttempt_brief brief fun _ kept => kept
      exact Yields.seq (emitEvent_brief closed _ _ _ _) fun db brief => yields_ok brief

theorem cancelRunningJob_brief (reason : Option String) (brief : db.Brief) :
    Yields Db.BriefAfter (cancelRunningJob env id attempt worker reason db) := by
  have stored := brief_storedText reason
  unfold cancelRunningJob
  split
  · exact yields_ok brief
  · rename_i job found
    have row := brief.jobs id job (runningJob_eq_some.mp found).1
    exact settleCancelled_brief (fun r row => ⟨stored, row.cancelReason⟩) (fun _ _ => stored) row brief

end Settlements

section Claims

variable {env : Env} {args : ClaimArgs} {id : Uuid} {job : Job} {db : Db}

theorem breakerGate_brief (queue : String) (brief : db.Brief) : Yields Db.BriefAfter (breakerGate env queue db) := by
  rintro ⟨wait, after⟩ run
  obtain ⟨flows, rfl⟩ := breakerGate_frame run
  exact ⟨brief.jobs, brief.attempts, brief.workflows, brief.schedules, brief.events⟩

theorem flowConsumeQueue_brief (queue : String) (rate burst : ℤ) (scale : ℚ) (want : ℤ) (brief : db.Brief) :
    Yields Db.BriefAfter (flowConsumeQueue env queue rate burst scale want db) := by
  rintro ⟨grant, after⟩ run
  obtain ⟨flows, rfl⟩ := flowConsumeQueue_frame run
  exact ⟨brief.jobs, brief.attempts, brief.workflows, brief.schedules, brief.events⟩

theorem queueGate_brief (q : Queue) (batch : ℤ) (brief : db.Brief) :
    Yields Db.BriefAfter (queueGate env args q batch db) := by
  unfold queueGate
  dsimp only
  split
  · exact yields_ok brief
  · split
    · exact yields_ok brief
    · refine Yields.seq (flowConsumeQueue_brief _ _ _ _ _ brief) ?_
      rintro ⟨grant, db⟩ brief
      cases grant <;> exact yields_ok brief

theorem admitCandidate_brief (job : JobRow) (brief : db.Brief) : (admitCandidate env job db).2.Brief := by
  unfold admitCandidate
  dsimp only
  split
  · exact brief
  · split
    · exact brief
    · rename_i key _
      obtain ⟨keys, frame⟩ := flowKeyAdmit_frame env key db
      rw [frame]
      exact ⟨brief.jobs, brief.attempts, brief.workflows, brief.schedules, brief.events⟩

theorem startAttempt_brief (row : job.toJobRow.Brief) (brief : db.Brief) :
    Yields Db.BriefAfter (startAttempt env args id job db) := by
  unfold startAttempt
  dsimp only [newUuid]
  refine Yields.seq (writeJob_brief brief.minted ⟨row.error, row.cancelReason⟩) fun db brief => ?_
  refine Yields.seq (P := Db.Brief) ?_ fun db brief =>
    Yields.seq (emitEvent_brief brief _ _ _ _) fun db brief => yields_ok brief
  exact yields_after fun _ => yields_after fun _ => yields_ok ⟨brief.jobs,
    put_all (P := fun a : Attempt => Brief 2048 a.error) brief.attempts _ (Brief.none 2048),
    brief.workflows, brief.schedules, brief.events⟩

theorem claimLoop_brief {pick : Scan → Core → Call (Option (Uuid × Job) × Scan)} (picks : Picks env args pick)
    (scans : ℕ) (wanted : ℤ) (scan : Scan) (brief : db.Brief) :
    Yields Db.BriefAfter (claimLoop env args pick scans wanted scan db) := by
  induction scans generalizing wanted scan db with
  | zero => exact yields_ok brief
  | succ scans ih =>
    unfold claimLoop
    split
    · exact yields_ok brief
    · refine Yields.seq (P := fun found => ∀ id job, found.1 = some (id, job) → job.toJobRow.Brief) ?_ ?_
      · rintro ⟨found, scan'⟩ run id job rfl
        exact brief.jobs id job (picks run).1
      · rintro ⟨found, scan⟩ known
        cases found with
        | none => exact yields_ok brief
        | some found =>
          have admitted : (admitCandidate env found.2.toJobRow db).2.Brief := admitCandidate_brief _ brief
          dsimp only
          split
          · exact Yields.seq (startAttempt_brief (known _ _ rfl) admitted) fun _ brief =>
              Yields.seq (ih _ _ brief) fun _ brief => yields_ok brief
          · exact ih _ _ admitted

theorem runClaim_brief {pick : Scan → Core → Call (Option (Uuid × Job) × Scan)} (picks : Picks env args pick) (batch : ℤ)
    (brief : db.Brief) : Yields Db.BriefAfter (runClaim env args pick batch db) := by
  refine Yields.seq (claimLoop_brief picks _ _ _ brief) fun ⟨jobs, db⟩ brief => ?_
  dsimp only
  split
  · exact Yields.seq (reapExpired_brief brief _) fun ⟨_, db⟩ brief => yields_ok brief
  · exact yields_ok brief

theorem claimBody_brief {pick : ℤ → Db → Scan → Core → Call (Option (Uuid × Job) × Scan)}
    (picks : ∀ batch db, Picks env args (pick batch db)) (brief : db.Brief) :
    Yields Db.BriefAfter (claimBody env args db pick) := by
  unfold claimBody
  dsimp only
  split
  · exact yields_ok brief
  · split
    · exact yields_ok brief
    · refine Yields.seq (queueGate_brief _ _ brief) fun ⟨gate, db⟩ brief => ?_
      cases gate with
      | error throttled => exact yields_ok brief
      | ok batch => exact runClaim_brief (picks batch db) batch brief

theorem gatedClaim_brief {body : Db → Call (ClaimBatch × Db)}
    (kept : ∀ db : Db, db.Brief → Yields Db.BriefAfter (body db)) (brief : db.Brief) :
    Yields Db.BriefAfter (gatedClaim env args body db) := by
  refine yields_after fun _ => Yields.seq (breakerGate_brief _ brief) fun ⟨retry, db⟩ brief => ?_
  cases retry with
  | some n => exact yields_ok brief
  | none => exact kept db brief

theorem claimJobs_brief (brief : db.Brief) : Yields Db.BriefAfter (claimJobs env args db) :=
  gatedClaim_brief (fun _ brief => yields_after fun _ => yields_after fun _ => yields_after fun _ =>
    yields_after fun _ => yields_after fun _ => claimBody_brief (fun _ _ => pickOrdinary_picks) brief) brief

theorem claimJobsWithPolicies_brief (hashes : List String) (brief : db.Brief) :
    Yields Db.BriefAfter (claimJobsWithPolicies env args hashes db) :=
  gatedClaim_brief (fun _ brief => yields_after fun _ => yields_after fun _ => yields_after fun _ =>
    claimBody_brief (fun _ _ => pickWithPolicies_picks) brief) brief

end Claims

section Admission

variable {env : Env} {id : Uuid} {row : JobRow} {q : Queue} {a : EnqueueArgs} {db : Db}

theorem EnqueueArgs.row_brief (env : Env) (a : EnqueueArgs) (q : Queue) (m : Membership) : (a.row env q m).Brief :=
  ⟨.none _, .none _⟩

theorem tryInsert_brief (new : row.Brief) (m : Membership) (brief : db.Brief) :
    Yields (fun inserted => ∀ db ∈ inserted, Db.Brief db) (tryInsert env id row m db) := by
  have block : Yields (fun inserted => ∀ db ∈ inserted, Db.Brief db) (do
      let db ← reservePlace m db
      insertJob env id row db) := by
    refine Yields.seq (P := Db.Brief) ?_ fun db brief => insertJob_brief brief new
    unfold reservePlace
    split
    · exact reserveWorkflowMembers_brief _ _ _ brief
    · exact yields_ok brief
  unfold tryInsert
  dsimp only
  split
  · rename_i inserted run
    exact yields_ok (block inserted run)
  · split
    · exact yields_ok fun _ absent => nomatch absent
    · exact yields_error

theorem insertOrConverge_brief (new : row.Brief) (m : Membership) (tries : ℕ) (brief : db.Brief) :
    Yields Db.BriefAfter (insertOrConverge env a row m tries db) := by
  induction tries generalizing db with
  | zero => exact yields_error
  | succ tries ih =>
    unfold insertOrConverge
    dsimp only [newUuid]
    refine Yields.seq (tryInsert_brief new m brief.minted) fun inserted brief' => ?_
    split
    · exact yields_ok (brief' _ rfl)
    · refine yields_after fun existing => ?_
      split
      · exact yields_ok brief.minted
      · exact ih brief.minted

theorem finishEnqueue_brief (live : List Uuid) (brief : db.Brief) :
    Yields Db.Brief (finishEnqueue env id row live q db) := by
  have linked : ({ db with deps := db.deps ∪ (live.map fun parent => (id, parent)).toFinset } : Db).Brief :=
    ⟨brief.jobs, brief.attempts, brief.workflows, brief.schedules, brief.events⟩
  exact Yields.seq (emitEvent_brief linked _ _ _ _) fun db brief => yields_ok (.ite (brief.notify _) brief)

theorem enqueue_brief (a : EnqueueArgs) (brief : db.Brief) : Yields Db.BriefAfter (enqueue env a db) := by
  refine yields_after fun _ => ?_
  split
  · exact yields_error
  · rename_i q _
    refine yields_after fun _ => yields_after fun m => ?_
    split
    · exact yields_ok brief
    · refine yields_after fun _ => ?_
      refine Yields.seq (insertOrConverge_brief (a.row_brief env q m) m 3 brief) fun ⟨⟨id, created⟩, db⟩ brief => ?_
      dsimp only
      split
      · exact Yields.seq (finishEnqueue_brief _ brief) fun db brief => yields_ok brief
      · exact yields_ok brief

theorem tryEnqueue_brief (a : EnqueueArgs) (brief : db.Brief) : Yields Db.BriefAfter (tryEnqueue env a db) := by
  refine yields_after fun _ => ?_
  split
  · exact yields_ok brief
  · split
    · rename_i id created db' run
      exact yields_ok (enqueue_brief a brief _ run)
    · split
      · exact yields_ok brief
      · exact yields_error

end Admission

section Bulk

variable {env : Env} {q : Queue} {workflow : Option (Uuid × Workflow)} {db : Db}

theorem parseSpecs_brief (queue : String) (specs : List Jsonb) (index : ℤ) (mode : Option (Option Uuid)) (brief : db.Brief) :
    Yields Db.BriefAfter (parseSpecs env queue q specs index mode db) := by
  induction specs generalizing index mode db with
  | nil => exact yields_ok brief
  | cons spec specs ih =>
    exact yields_after fun _ => yields_after fun _ => yields_after fun _ => yields_after fun _ =>
      Yields.seq (ih _ _ brief.minted) fun ⟨_, db⟩ brief => yields_ok brief

theorem reserveSlots_brief (fresh : ℕ) (brief : db.Brief) : Yields Db.Brief (reserveSlots workflow fresh db) := by
  unfold reserveSlots
  split
  · split
    · exact reserveWorkflowMembers_brief _ _ _ brief
    · exact yields_ok brief
  · exact yields_ok brief

theorem BulkSlot.row_brief (env : Env) (q : Queue) (workflow : Option (Uuid × Workflow)) (slot : BulkSlot) :
    (slot.row env q workflow).Brief := ⟨.none _, .none _⟩

theorem insertSlots_brief (slots : List BulkSlot) (brief : db.Brief) :
    Yields Db.BriefAfter (insertSlots env q workflow slots db) := by
  induction slots generalizing db with
  | nil => exact yields_ok brief
  | cons slot slots ih =>
    unfold insertSlots
    split
    · exact Yields.seq (ih brief) fun _ brief => yields_ok brief
    · refine Yields.seq (insertJob_brief brief (slot.row_brief env q workflow)) fun inserted brief' => ?_
      split
      · exact Yields.seq (ih (brief' _ rfl)) fun _ brief => yields_ok brief
      · exact Yields.seq (ih brief) fun _ brief => yields_ok brief

theorem convergeSlot_brief (slot : BulkSlot) (tries : ℕ) (brief : db.Brief) :
    Yields Db.BriefAfter (convergeSlot env q workflow slot tries db) := by
  induction tries generalizing db with
  | zero => exact yields_error
  | succ tries ih =>
    unfold convergeSlot
    split
    · exact yields_after fun _ => yields_ok brief
    · split
      · exact yields_after fun _ => yields_ok brief
      · refine Yields.seq (insertJob_brief brief (slot.row_brief env q workflow)) fun inserted brief' => ?_
        split
        · exact yields_ok (brief' _ rfl)
        · exact ih brief

theorem convergeSlots_brief (slots : List BulkSlot) (brief : db.Brief) :
    Yields Db.BriefAfter (convergeSlots env q workflow slots db) := by
  induction slots generalizing db with
  | nil => exact yields_ok brief
  | cons slot slots ih =>
    refine Yields.seq (P := Db.BriefAfter) ?_ fun ⟨_, db⟩ brief => Yields.seq (ih brief) fun ⟨_, db⟩ brief => yields_ok brief
    unfold answerSlot
    split
    · exact yields_ok brief
    · exact Yields.seq (convergeSlot_brief slot 3 brief) fun ⟨_, db⟩ brief => yields_ok brief

theorem enqueuedEvents_brief (ids : List Uuid) (brief : db.Brief) : (enqueuedEvents env ids db).Brief := by
  induction ids generalizing db with
  | nil => exact brief
  | cons id ids ih =>
    unfold enqueuedEvents
    split
    · exact ih brief
    · exact ih (brief.event _ _ _ _ _ _ _)

theorem enqueueMany_brief (queue : String) (jobs : Option Jsonb) (brief : db.Brief) :
    Yields Db.BriefAfter (enqueueMany env queue jobs db) := by
  refine yields_after fun _ => yields_after fun _ => ?_
  split
  · exact yields_error
  · refine Yields.seq (parseSpecs_brief _ _ _ _ brief) fun ⟨slots, db⟩ brief => yields_after fun ⟨workflow, slots⟩ =>
      yields_after fun _ => Yields.seq (reserveSlots_brief _ brief) fun db brief =>
        Yields.seq (insertSlots_brief slots brief) fun ⟨slots, db⟩ brief =>
          Yields.seq (convergeSlots_brief slots brief) fun ⟨slots, db⟩ brief => yields_ok ?_
    have written : (enqueuedEvents env (createdJobs slots) db).Brief := enqueuedEvents_brief _ brief
    exact .ite (written.notify queue) written

end Bulk

section Reservations

variable {env : Env} {id : Uuid} {queue : String} {key : Option String} {handle : Option Uuid} {db : Db}

theorem Db.Brief.putAdmission (brief : db.Brief) (id : Uuid) (a : Admission) : (db.putAdmission id a).Brief :=
  ⟨brief.jobs, brief.attempts, brief.workflows, brief.schedules, brief.events⟩

theorem reserveAdmission_brief (intent : Option String) (reservationTtl receiptTtl : Option ℤ) (brief : db.Brief) :
    Yields Db.BriefAfter (reserveAdmission env queue key intent handle reservationTtl receiptTtl db) := by
  refine yields_after fun _ => yields_after fun key => yields_after fun _ => yields_after fun handle =>
    yields_after fun _ => yields_after fun _ => ?_
  dsimp only [newUuid]
  split
  · exact yields_ok (brief.minted.putAdmission _ _)
  · refine yields_after fun answer => ?_
    split
    · exact yields_ok brief
    · exact yields_ok (brief.putAdmission _ _)

theorem admitReserved_brief (a : Admission) (args : EnqueueArgs) (finishHash : String) (receipt : Jsonb) (brief : db.Brief) :
    Yields Db.BriefAfter (admitReserved env id a args finishHash receipt db) :=
  Yields.seq (enqueue_brief args brief) fun ⟨⟨_, _⟩, _⟩ brief => yields_after fun _ =>
    Yields.seq (updateJob_brief brief fun _ row => ⟨row.error, row.cancelReason⟩) fun _ brief =>
      yields_ok (brief.putAdmission _ _)

theorem finishAdmission_brief (job receipt : Option Jsonb) (brief : db.Brief) :
    Yields Db.BriefAfter (finishAdmission env queue key handle job receipt db) := by
  refine yields_after fun _ => yields_after fun key => yields_after fun handle => yields_after fun args =>
    yields_after fun _ => ?_
  dsimp only
  split
  · exact yields_error
  · refine yields_after fun _ => ?_
    split
    · exact yields_after fun _ => yields_ok brief
    · exact yields_error
    · exact yields_after fun _ => admitReserved_brief _ _ _ _ brief

theorem cancelAdmission_brief (brief : db.Brief) : Yields Db.BriefAfter (cancelAdmission env queue key handle db) := by
  refine yields_after fun _ => yields_after fun key => yields_after fun handle => ?_
  split
  · exact yields_error
  · refine yields_after fun _ => ?_
    split
    · exact yields_ok brief
    · exact yields_ok brief
    · split
      · exact yields_ok brief
      · exact yields_ok (brief.putAdmission _ _)

end Reservations

section Maintenance

variable {env : Env} {db : Db}

/-- A property that a pass keeps is kept by its block. -/
theorem inBlock_brief {pass : Db → Call (ℤ × Db)} (kept : Yields Db.BriefAfter (pass db)) (brief : db.Brief) :
    (inBlock pass db).2.Brief := by
  unfold inBlock
  split
  · rename_i n db' run
    exact kept _ run
  · exact brief

theorem tick_brief (limit : Option ℤ) (brief : db.Brief) : Yields Db.BriefAfter (tick env limit db) := by
  rintro ⟨report, after⟩ run
  simp only [tick, seq_eq_ok] at run
  obtain ⟨-, -, -, -, run⟩ := run
  split at run
  · cases run
    exact brief
  · have reaped (db : Db) (brief : db.Brief) : (inBlock (reapExpired env limit) db).2.Brief :=
      inBlock_brief (reapExpired_brief brief limit) brief
    have expired (db : Db) (brief : db.Brief) : (inBlock (expireTtl env (some 200)) db).2.Brief :=
      inBlock_brief (expireTtl_brief brief _) brief
    have cancelled (db : Db) (brief : db.Brief) : (inBlock (finalizeCancelStragglers env (some 50)) db).2.Brief :=
      inBlock_brief (finalizeCancelStragglers_brief brief _) brief
    have advanced (db : Db) (brief : db.Brief) : (inBlock (advanceWorkflowCancellations env (some 100)) db).2.Brief :=
      inBlock_brief (advanceWorkflowCancellations_brief brief _) brief
    have released (db : Db) (brief : db.Brief) : (inBlock (finalizeDepStragglers env (some 100)) db).2.Brief :=
      inBlock_brief (finalizeDepStragglers_brief brief _) brief
    have finalized (db : Db) (brief : db.Brief) : (inBlock (finalizeWorkflows env (some 100)) db).2.Brief :=
      inBlock_brief (finalizeWorkflows_brief brief _) brief
    cases run
    dsimp only [Db.BriefAfter]
    exact finalized _ (released _ (advanced _ (cancelled _ (expired _ (reaped _ brief)))))

theorem deleteJob_brief (victim : Uuid × Job) (db : Db) (brief : db.Brief) : Yields Db.Brief (deleteJob env victim db) := by
  refine yields_after fun _ => yields_after fun counts => yields_ok ?_
  have jobs : ∀ id job, (db.jobs.remove victim.1).get? id = some job → job.toJobRow.Brief := by
    intro id job stored
    rw [Table.get?_remove] at stored
    split_ifs at stored
    exact brief.jobs id job stored
  have attempts : ∀ id a, (db.attempts.keep fun _ a => a.jobId ≠ victim.1).get? id = some a → Brief 2048 a.error := by
    intro id a stored
    rw [Table.get?_keep] at stored
    exact brief.attempts id a (Option.filter_eq_some_iff.mp stored).1
  unfold countDeleted
  split <;> exact ⟨jobs, attempts, brief.workflows, brief.schedules, brief.events⟩

theorem retentionStep_brief (g : StatusGroup) (brief : db.Brief) : Yields Db.BriefAfter (retentionStep env g db) :=
  yields_after fun _ => Yields.seq (yields_forEach deleteJob_brief brief) fun _ brief => yields_ok brief

theorem dropOldEvents_subset (env : Env) (budget : ℕ) (es : List Event) : dropOldEvents env budget es ⊆ es := by
  induction es generalizing budget with
  | nil => cases budget <;> exact List.Subset.refl _
  | cons e es ih =>
    cases budget with
    | zero => exact List.Subset.refl _
    | succ budget =>
      unfold dropOldEvents
      split
      · exact List.subset_cons_of_subset _ (ih _)
      · exact List.cons_subset_cons _ (ih _)

theorem pruneSchedules_brief (brief : db.Brief) : (pruneDecisions env (pruneOccurrences env db)).Brief :=
  ⟨brief.jobs, brief.attempts, brief.workflows, brief.schedules, brief.events⟩

theorem janitor_brief (brief : db.Brief) : Yields Db.BriefAfter (janitor env db) := by
  rintro ⟨report, after⟩ run
  simp only [janitor, seq_eq_ok] at run
  obtain ⟨-, -, run⟩ := run
  have retained (g : StatusGroup) (db : Db) (brief : db.Brief) : (inBlock (retentionStep env g) db).2.Brief :=
    inBlock_brief (retentionStep_brief g brief) brief
  have admissions (db : Db) (brief : db.Brief) : (inBlock (pruneAdmissions env) db).2.Brief :=
    inBlock_brief (yields_after fun _ => yields_ok ⟨brief.jobs, brief.attempts, brief.workflows, brief.schedules,
      brief.events⟩) brief
  have events (db : Db) (brief : db.Brief) : (inBlock (pruneEvents env) db).2.Brief :=
    inBlock_brief (yields_ok ⟨brief.jobs, brief.attempts, brief.workflows, brief.schedules, fun e kept =>
      brief.events e (dropOldEvents_subset env _ _ kept)⟩) brief
  cases run
  dsimp only [Db.BriefAfter]
  exact pruneSchedules_brief (events _ (admissions _ (retained .failed _ (retained .finished _ brief))))

end Maintenance

section Configuration

variable {env : Env} {queue : String} {db : Db}

theorem Db.Brief.putQueue (brief : db.Brief) (queue : String) (q : Queue) : (db.putQueue queue q).Brief :=
  ⟨brief.jobs, brief.attempts, brief.workflows, brief.schedules, brief.events⟩

theorem ensureQueue_brief (name : Option String) (profile : Option Jsonb) (brief : db.Brief) :
    Yields Db.BriefAfter (ensureQueue env name profile db) := by
  unfold ensureQueue
  dsimp only
  split
  · exact yields_error
  · refine yields_after fun _ => yields_after fun _ => yields_after fun _ => ?_
    split
    · exact yields_after fun _ => yields_ok (brief.putQueue _ _)
    · refine yields_after fun _ => ?_
      split
      · exact yields_ok brief
      · exact yields_ok (brief.putQueue _ _)

theorem pauseQueue_brief (reason : Option String) (brief : db.Brief) :
    Yields Db.BriefAfter (pauseQueue env queue reason db) := by
  unfold pauseQueue
  split
  · exact yields_error
  · split
    · exact yields_ok brief
    · exact yields_ok (brief.putQueue _ _)

theorem resumeQueue_brief (brief : db.Brief) : Yields Db.BriefAfter (resumeQueue env queue db) := by
  unfold resumeQueue
  split
  · exact yields_error
  · split
    · exact yields_ok brief
    · dsimp only
      split
      · exact yields_ok (brief.putQueue _ _)
      · exact yields_ok ((brief.putQueue _ _).putFlow _ _)

theorem setConcurrencyLimit_brief (key : Option String) (maxRunning : Option ℤ) (brief : db.Brief) :
    Yields Db.BriefAfter (setConcurrencyLimit key maxRunning db) := by
  refine yields_after fun _ => yields_after fun _ => ?_
  dsimp only
  split
  · exact yields_ok ⟨brief.jobs, brief.attempts, brief.workflows, brief.schedules, brief.events⟩
  · split
    · exact yields_ok brief
    · exact yields_ok ⟨brief.jobs, brief.attempts, brief.workflows, brief.schedules, brief.events⟩

theorem setFlowLimit_brief (key : Option String) (rate burst : Option ℤ) (brief : db.Brief) :
    Yields Db.BriefAfter (setFlowLimit key rate burst db) := by
  refine yields_after fun _ => yields_after fun _ => yields_after fun _ => ?_
  dsimp only
  split
  · exact yields_ok ⟨brief.jobs, brief.attempts, brief.workflows, brief.schedules, brief.events⟩
  · split
    · exact yields_ok brief
    · exact yields_ok ⟨brief.jobs, brief.attempts, brief.workflows, brief.schedules, brief.events⟩

theorem upsertFlow_brief (f : QueueFlow → QueueFlow) (brief : db.Brief) : (upsertFlow env queue f db).2.Brief := by
  unfold upsertFlow
  split <;> exact brief.putFlow _ _

theorem updateBreaker_brief (f : QueueFlow → QueueFlow) (brief : db.Brief) :
    Yields Db.Brief (updateBreaker env queue f db) := by
  unfold updateBreaker
  split
  · exact yields_error
  · exact yields_ok (brief.putFlow _ _)

theorem assignOwner_brief (q : Queue) (owner : ℕ) (brief : db.Brief) : (assignOwner env queue q owner db).Brief := by
  refine ⟨brief.jobs, brief.attempts, brief.workflows, fun id s stored => ?_, brief.events⟩
  simp only [assignOwner, Table.get?_mapRows, Option.map_eq_some_iff] at stored
  obtain ⟨s, old, rfl⟩ := stored
  have row := brief.schedules id s old
  split <;> exact row

theorem bindQueueAdmissionOwner_brief (role : Option String) (brief : db.Brief) :
    Yields Db.Brief (bindQueueAdmissionOwner env queue role db) := by
  refine yields_after fun _ => yields_after fun _ => ?_
  split
  · exact yields_error
  · exact yields_after fun _ => yields_after fun _ => yields_after fun _ => yields_after fun _ =>
      yields_ok (assignOwner_brief _ _ brief)

theorem changeOwner_brief (change : String) (role actor reason : Option String) (check : Option ℕ → ℕ → Call Unit)
    (brief : db.Brief) : Yields Db.Brief (changeOwner env change queue role actor reason check db) := by
  refine yields_after fun _ => yields_after fun _ => yields_after fun _ => ?_
  split
  · exact yields_error
  · exact yields_after fun _ => yields_after fun _ => yields_ok (assignOwner_brief _ _ brief)

theorem adoptQueueAdmissionOwner_brief (role actor reason : Option String) (brief : db.Brief) :
    Yields Db.Brief (adoptQueueAdmissionOwner env queue role actor reason db) := by
  unfold adoptQueueAdmissionOwner
  exact changeOwner_brief _ _ _ _ _ brief

theorem rotateQueueAdmissionOwner_brief (role actor reason : Option String) (brief : db.Brief) :
    Yields Db.Brief (rotateQueueAdmissionOwner env queue role actor reason db) := by
  unfold rotateQueueAdmissionOwner
  exact changeOwner_brief _ _ _ _ _ brief

end Configuration

end Taskq
