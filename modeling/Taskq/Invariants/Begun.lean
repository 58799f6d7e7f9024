import Taskq.Invariants.Footprints
import Taskq.Library.Postconditions
import Taskq.Model.System

/-! A running job has the time at which it began. -/
namespace Taskq
open Relational

variable {env : Env} {id attempt : Uuid} {old job : Job} {new : JobRow} {db db' : Db} {S : Set Label}

/-- Every running job has the time at which its first attempt began. -/
def Db.Begun (db : Db) : Prop :=
  ∀ id job, db.jobs.get? id = some job → job.status = .running → job.startedAt.isSome = true

/-- After a call that also gives an answer. -/
def Db.BegunAfter {α : Type} (r : α × Db) : Prop := r.2.Begun

/-- Only these changes leave a job running. -/
def Change.runs : Change → Bool
  | .start | .beat | .requestCancel | .adjust | .link _ => true
  | _ => false

/-- No change of the set leaves a job running. -/
def Stilling (S : Set Label) : Prop := ∀ id k, .change id k ∈ S → k.runs = false

section Rows

theorem Life.Step.rests {max : ℤ} {k : Change} {l l' : Life} (step : Life.Step max k l l') (still : k.runs = false) :
    l'.status ≠ .running := by
  cases step with
  | promote =>
    dsimp only
    split_ifs
    all_goals simp
  | _ => simp_all [Change.runs, Life.ended, Life.failedOnce]

/-- A job that runs after stilling steps ran before them, with the same row. -/
theorem Stilling.running_before (calm : Stilling S) {c d : Core} (steps : Steps S c d) (stored : d.jobs.get? id = some job)
    (running : job.status = .running) : c.jobs.get? id = some job := by
  refine steps.row (R := fun r s => ∀ job, s = some job → job.status = .running → r = some job) id
    (fun _ _ h _ => h) (fun first second job h k => first job (second job h k) k)
    (fun {l r s} member move job present running => ?_) job stored running
  cases move with
  | same => exact present
  | change label _ _ step =>
    cases present
    exact absurd running (step.rests (calm _ _ (label ▸ member)))
  | delete => cases present
  | enter _ _ born =>
    cases present
    have fresh := congrArg Life.status born
    simp only [Life.fresh, JobRow.life] at fresh
    rw [running] at fresh
    split_ifs at fresh

theorem Db.Begun.of_steps (begun : db.Begun) (calm : Stilling S) (steps : Steps S db.toCore db'.toCore) : db'.Begun := by
  intro id job stored running
  exact begun id job (calm.running_before steps stored running) running

theorem Db.Begun.of_jobs (begun : db.Begun) (jobs : db'.jobs = db.jobs) : db'.Begun := by
  intro id job stored running
  rw [jobs] at stored
  exact begun id job stored running

theorem Db.Begun.dropOwnEdges (begun : db.Begun) (id : Uuid) : (Taskq.dropOwnEdges id db).Begun := begun.of_jobs rfl

theorem writeJob_begun (begun : db.Begun) (row : new.status = .running → new.startedAt.isSome = true) :
    Yields Db.Begun (writeJob env id old new db) := by
  intro db' run other job stored running
  obtain ⟨written, _, _, _, _, same, -, -, rfl⟩ := writeJob_frame run
  rw [Table.get?_put] at stored
  split_ifs at stored
  · cases stored
    rw [same] at running ⊢
    exact row running
  · exact begun other job stored running

theorem updateJob_begun (begun : db.Begun) {f : JobRow → JobRow}
    (kept : ∀ r : JobRow, (f r).status = .running → r.status = .running ∧ (f r).startedAt = r.startedAt) :
    Yields Db.Begun (updateJob env id f db) := by
  unfold updateJob
  split
  · exact yields_ok begun
  · rename_i old stored
    apply writeJob_begun begun
    intro running
    obtain ⟨was, same⟩ := kept _ running
    rw [same]
    exact begun id old stored was

theorem dependents_stilling : Stilling dependents := by
  rintro id k ⟨child, same⟩
  cases same
  rfl

theorem emitEvent_begun (begun : db.Begun) (attempt : Option Uuid) (kind : String) (actor message : Option String)
    (data : Option Jsonb) : Yields Db.Begun (emitEvent env id attempt kind actor message data db) :=
  fun _ run => begun.of_steps dependents_stilling (emitEvent_path run).steps

end Rows

section Claims

variable {args : ClaimArgs}

theorem startAttempt_begun (begun : db.Begun) : Yields Db.BegunAfter (startAttempt env args id job db) := by
  unfold startAttempt
  dsimp only [newUuid]
  have written (r : JobRow) (is : r.startedAt = (job.startedAt <|> some env.now)) :
      r.status = .running → r.startedAt.isSome = true := by
    intro _
    rw [is]
    cases job.startedAt <;> rfl
  refine Yields.seq (writeJob_begun (begun.of_jobs rfl) (written _ rfl)) fun db begun => ?_
  refine Yields.seq (P := Db.Begun) ?_ fun db begun =>
    Yields.seq (emitEvent_begun begun _ _ _ _ _) fun db begun => yields_ok begun
  exact yields_after fun _ => yields_after fun _ => yields_ok (begun.of_jobs rfl)

theorem claimLoop_begun (pick : Scan → Core → Call (Option (Uuid × Job) × Scan)) (scans : ℕ) (wanted : ℤ) (scan : Scan)
    (begun : db.Begun) : Yields Db.BegunAfter (claimLoop env args pick scans wanted scan db) := by
  induction scans generalizing wanted scan db with
  | zero => exact yields_ok begun
  | succ scans ih =>
    unfold claimLoop
    split
    · exact yields_ok begun
    · refine yields_after fun found => ?_
      obtain ⟨candidate, scan⟩ := found
      cases candidate with
      | none => exact yields_ok begun
      | some found =>
        have admitted : (admitCandidate env found.2.toJobRow db).2.Begun :=
          begun.of_jobs (congrArg Core.jobs (admitCandidate_aside env found.2.toJobRow db).1)
        dsimp only
        split
        · exact Yields.seq (startAttempt_begun admitted) fun _ begun => Yields.seq (ih _ _ begun) fun _ begun => yields_ok begun
        · exact ih _ _ admitted

theorem reclaims_stilling (late : Set Uuid) : Stilling (reclaims late) := by
  rintro id k (⟨_, -, same | same | same⟩ | ⟨_, same⟩)
  all_goals
    cases same
    rfl

theorem runClaim_begun (pick : Scan → Core → Call (Option (Uuid × Job) × Scan)) (batch : ℤ) (begun : db.Begun) :
    Yields Db.BegunAfter (runClaim env args pick batch db) := by
  refine Yields.seq (claimLoop_begun pick _ _ _ begun) fun ⟨jobs, db⟩ begun => ?_
  dsimp only
  split
  · refine Yields.seq (P := Db.BegunAfter) ?_ fun ⟨_, db⟩ begun => yields_ok begun
    rintro ⟨n, db'⟩ run
    exact begun.of_steps (reclaims_stilling _) (reapExpired_path run).steps
  · exact yields_ok begun

theorem claimBody_begun (pick : ℤ → Db → Scan → Core → Call (Option (Uuid × Job) × Scan)) (begun : db.Begun) :
    Yields Db.BegunAfter (claimBody env args db pick) := by
  unfold claimBody
  dsimp only
  split
  · exact yields_ok begun
  · rename_i q stored
    split
    · exact yields_ok begun
    · refine Yields.seq (P := Db.BegunAfter) ?_ fun ⟨gate, db⟩ begun => ?_
      · rintro ⟨gate, gated⟩ run
        exact begun.of_jobs (congrArg Core.jobs (queueGate_aside stored run).1)
      · cases gate with
        | error throttled => exact yields_ok begun
        | ok batch => exact runClaim_begun _ _ begun

theorem gatedClaim_begun {body : Db → Call (ClaimBatch × Db)} (kept : ∀ db : Db, db.Begun → Yields Db.BegunAfter (body db))
    (begun : db.Begun) : Yields Db.BegunAfter (gatedClaim env args body db) := by
  refine yields_after fun _ => Yields.seq (P := Db.BegunAfter) ?_ fun ⟨retry, db⟩ begun => ?_
  · rintro ⟨retry, gated⟩ run
    obtain ⟨flows, frame⟩ := breakerGate_frame run
    exact begun.of_jobs (by rw [frame])
  · cases retry with
    | some n => exact yields_ok begun
    | none => exact kept db begun

theorem claimJobs_begun (begun : db.Begun) : Yields Db.BegunAfter (claimJobs env args db) :=
  gatedClaim_begun (fun _ begun => yields_after fun _ => yields_after fun _ => yields_after fun _ =>
    yields_after fun _ => yields_after fun _ => claimBody_begun _ begun) begun

theorem claimJobsWithPolicies_begun (hashes : List String) (begun : db.Begun) :
    Yields Db.BegunAfter (claimJobsWithPolicies env args hashes db) :=
  gatedClaim_begun (fun _ begun => yields_after fun _ => yields_after fun _ => yields_after fun _ =>
    claimBody_begun _ begun) begun

end Claims

section Beats

theorem heartbeat_begun (worker : Option String) (lease : Option ℤ) (progress stats : Option Jsonb) (begun : db.Begun) :
    Yields Db.BegunAfter (heartbeat env id attempt worker lease progress stats db) := by
  refine yields_after fun _ => yields_after fun _ => yields_after fun _ => ?_
  split
  · exact yields_ok begun
  · rename_i job found
    have stored := (runningJob_eq_some.mp (Option.filter_eq_some_iff.mp found).1).1
    refine Yields.seq (writeJob_begun begun (begun id job stored)) fun db begun => yields_ok ?_
    dsimp only [Db.BegunAfter]
    split
    · refine begun.of_jobs ?_
      rw [updateAttempt_toCore]
    · exact begun

theorem cancelJob_begun (actor reason : Option String) (begun : db.Begun) :
    Yields Db.BegunAfter (cancelJob env id actor reason db) := by
  unfold cancelJob
  split
  · exact yields_error
  · rename_i job stored
    split
    · exact yields_ok begun
    · split
      · refine Yields.seq (writeJob_begun begun (by simp)) fun db begun =>
          Yields.seq (emitEvent_begun (begun.dropOwnEdges id) _ _ _ _ _) fun db begun => yields_ok begun
      · exact Yields.seq (writeJob_begun begun (begun id job stored)) fun db begun =>
          Yields.seq (emitEvent_begun begun _ _ _ _ _) fun db begun => yields_ok begun

theorem backdateLease_begun (stored : job.status = .running → job.startedAt.isSome = true) (begun : db.Begun) :
    Yields Db.Begun (backdateLease env id job db) := writeJob_begun begun stored

theorem reapAll_begun (ids : List Uuid) (begun : db.Begun) : Yields Db.BegunAfter (reapAll env.holding ids db) := by
  rintro ⟨n, db'⟩ run
  exact begun.of_steps (reclaims_stilling _) (reapAll_path (fun _ member => member) run).steps

theorem expireJob_begun (actor : Option String) (begun : db.Begun) : Yields Db.BegunAfter (expireJob env id actor db) := by
  unfold expireJob
  split
  · exact yields_error
  · rename_i job stored
    split
    · refine Yields.seq (backdateLease_begun (begun id job stored) begun) fun db begun =>
        Yields.seq (emitEvent_begun begun _ _ _ _ _) fun db begun => Yields.seq (P := Db.BegunAfter) ?_ fun _ begun => yields_ok begun
      rintro ⟨done, db'⟩ run
      refine begun.of_steps ?_ (reapJob_path run).steps
      rintro _ k (⟨_, member, same⟩ | ⟨_, same⟩)
      · cases same
        simp only [expiring, List.mem_cons, List.not_mem_nil, or_false] at member
        obtain rfl | rfl | rfl := member
        all_goals rfl
      · cases same
        rfl
    · exact yields_ok begun

theorem backdateAll_begun (rows : List (Uuid × Job)) (known : ∀ e ∈ rows, e.2.status = .running → e.2.startedAt.isSome = true)
    (begun : db.Begun) : Yields Db.Begun (backdateAll env rows db) := by
  induction rows generalizing db with
  | nil => exact yields_ok begun
  | cons e rows ih =>
    obtain ⟨first, rest⟩ := List.forall_mem_cons.mp known
    exact Yields.seq (backdateLease_begun first begun) fun db begun => ih rest begun

theorem expireWorkerLeases_begun (worker : Option String) (begun : db.Begun) :
    Yields Db.BegunAfter (expireWorkerLeases env worker db) := by
  refine Yields.seq (backdateAll_begun _ ?_ begun) fun db begun =>
    Yields.seq (reapAll_begun _ begun) fun _ begun => yields_ok begun
  intro e held
  exact begun e.1 e.2 (Table.mem_selectBy.mp held).1

end Beats

section Adjustments

theorem redriveOne_begun (actor : Option String) (smear : ℤ) (begun : db.Begun) :
    Yields Db.BegunAfter (redriveOne env actor smear id db) := by
  have redriven : Yields Db.Begun (do
      let db ← redriveJob env id actor false db
      if 0 < smear then updateJob env id (fun r => { r with scheduledAt := smearedAt env id smear }) db
      else .ok db) := by
    refine Yields.seq (P := Db.Begun) ?_ fun db begun => ?_
    · intro db' run
      refine begun.of_steps ?_ (redriveJob_path run).steps
      rintro _ k ⟨_, member, same⟩
      cases same
      rw [List.mem_singleton.mp member]
      rfl
    · split
      · exact updateJob_begun begun fun _ running => ⟨running, rfl⟩
      · exact yields_ok begun
  unfold redriveOne
  dsimp only
  split
  · rename_i db' run
    exact yields_ok (redriven db' run)
  · split
    · exact yields_ok begun
    · exact yields_error

theorem redriveAll_begun (actor : Option String) (smear : ℤ) (ids : List Uuid) (begun : db.Begun) :
    Yields Db.BegunAfter (redriveAll env actor smear ids db) := by
  induction ids generalizing db with
  | nil => exact yields_ok begun
  | cons id ids ih =>
    exact Yields.seq (redriveOne_begun actor smear begun) fun ⟨_, db⟩ begun =>
      Yields.seq (ih begun) fun ⟨_, db⟩ begun => yields_ok begun

theorem runNow_begun (actor : Option String) (begun : db.Begun) : Yields Db.Begun (runNow env id actor db) := by
  unfold runNow
  split
  · exact yields_error
  · rename_i job stored
    exact yields_after fun _ => Yields.seq (writeJob_begun begun (begun id job stored)) fun db begun =>
      Yields.seq (emitEvent_begun begun _ _ _ _ _) fun db begun => yields_ok (begun.of_jobs rfl)

theorem reprioritize_begun (priority : Option ℤ) (actor : Option String) (begun : db.Begun) :
    Yields Db.Begun (reprioritize env id priority actor db) := by
  refine yields_after fun _ => ?_
  split
  · exact yields_error
  · rename_i job stored
    exact yields_after fun _ => Yields.seq (writeJob_begun begun (begun id job stored)) fun db begun =>
      emitEvent_begun begun _ _ _ _ _

end Adjustments

section Cancellations

theorem cancelMember_begun (id : Uuid) (db : Db) (begun : db.Begun) : Yields Db.Begun (cancelMember env id db) := by
  unfold cancelMember
  split
  · exact yields_ok begun
  · rename_i job found
    have stored := (Option.filter_eq_some_iff.mp found).1
    split
    · exact Yields.seq (writeJob_begun begun (begun id job stored)) fun db begun => yields_ok (begun.of_jobs rfl)
    · exact Yields.seq (writeJob_begun begun (by simp)) fun db begun => yields_ok (begun.of_jobs rfl)

theorem advanceWorkflows_begun (ws : List Uuid) (left : ℕ) (begun : db.Begun) :
    Yields Db.BegunAfter (advanceWorkflows env ws left db) := by
  induction ws generalizing db left with
  | nil => exact yields_ok begun
  | cons w ws ih =>
    refine Yields.seq (yields_forEach cancelMember_begun begun) fun db begun => ?_
    split
    · exact yields_ok begun
    · exact Yields.seq (ih _ begun) fun ⟨_, db⟩ begun => yields_ok begun

theorem advanceWorkflowCancellations_begun (limit : Option ℤ) (begun : db.Begun) :
    Yields Db.BegunAfter (advanceWorkflowCancellations env limit db) :=
  yields_after fun _ => Yields.seq (advanceWorkflows_begun _ _ begun) fun ⟨_, _⟩ begun => yields_ok begun

theorem writeWorkflow_begun {w : Uuid} {r : WorkflowRow} (begun : db.Begun) : Yields Db.Begun (writeWorkflow w r db) := by
  unfold writeWorkflow
  exact yields_after fun _ => yields_ok (begun.of_jobs rfl)

theorem cancelWorkflow_begun (w : Uuid) (actor reason : Option String) (begun : db.Begun) :
    Yields Db.BegunAfter (cancelWorkflow env w actor reason db) := by
  refine yields_after fun _ => yields_after fun _ => ?_
  split
  · exact yields_error
  · split
    · exact yields_ok begun
    · split
      · exact yields_ok begun
      · refine Yields.seq (writeWorkflow_begun begun) fun db begun =>
          Yields.seq (advanceWorkflowCancellations_begun _ begun) fun advanced begun => ?_
        obtain ⟨_, db⟩ := advanced
        dsimp only
        split
        · exact yields_error
        · split
          · exact Yields.seq (writeWorkflow_begun begun) fun db begun => yields_ok begun
          · exact yields_ok begun

end Cancellations

section Runs

theorem finishAdmission_begun (queue : String) (key : Option String) (handle : Option Uuid) (given receipt : Option Jsonb)
    (begun : db.Begun) : Yields Db.BegunAfter (finishAdmission env queue key handle given receipt db) := by
  rintro ⟨answer, db'⟩ run
  obtain ⟨k, a, row, -, -, -, ⟨-, -, -, rfl⟩ | ⟨-, -, args, jobId, entered, linked, -, enters, links, -, rfl⟩⟩ :=
    finishAdmission_cases run
  · exact begun
  · have calm : Stilling (admissions db.nextUuid) := by
      intro _ k member
      simp [admissions] at member
    have first := begun.of_steps calm (enqueue_path enters).steps
    have second : linked.Begun := by
      refine updateJob_begun first ?_ linked links
      exact fun _ running => ⟨running, rfl⟩
    exact second.of_jobs rfl

theorem inBlock_begun {pass : Db → Call (ℤ × Db)} (kept : Yields Db.BegunAfter (pass db)) (begun : db.Begun) :
    (inBlock pass db).2.Begun := by
  unfold inBlock
  split
  · rename_i n db' run
    exact kept _ run
  · exact begun

/-- A pass that takes stilling steps. -/
theorem inBlock_stilling {pass : Db → Call (ℤ × Db)} (path : ∀ n db', pass db = .ok (n, db') → Path env S db db') (calm : Stilling S)
    (begun : db.Begun) : (inBlock pass db).2.Begun :=
  inBlock_begun (fun _ run => begun.of_steps calm (path _ _ run).steps) begun

theorem sweeps_stilling (blocked : Set Uuid) : Stilling (sweeps blocked) := by
  rintro id k (⟨_, old, same, -⟩ | ⟨_, same⟩)
  all_goals
    cases same
    rfl

theorem promotions_stilling : Stilling (promotions ∪ dependents) := by
  rintro id k (⟨_, same | same⟩ | ⟨_, same⟩)
  all_goals
    cases same
    try rfl

theorem finalizations_stilling : Stilling finalizations := by
  rintro id k ⟨_, same⟩
  cases same

theorem tick_begun (limit : Option ℤ) (begun : db.Begun) : Yields Db.BegunAfter (tick env limit db) := by
  rintro ⟨report, after⟩ run
  simp only [tick, seq_eq_ok] at run
  obtain ⟨-, -, -, -, run⟩ := run
  split at run
  · cases run
    exact begun
  · have reaped (db : Db) (begun : db.Begun) : (inBlock (reapExpired env limit) db).2.Begun :=
      inBlock_stilling (fun _ _ pass => reapExpired_path pass) (reclaims_stilling _) begun
    have expired (db : Db) (begun : db.Begun) : (inBlock (expireTtl env (some 200)) db).2.Begun :=
      inBlock_stilling (fun _ _ pass => expireTtl_path pass) (sweeps_stilling _) begun
    have cancelled (db : Db) (begun : db.Begun) : (inBlock (finalizeCancelStragglers env (some 50)) db).2.Begun :=
      inBlock_stilling (fun _ _ pass => finalizeCancelStragglers_path pass) (sweeps_stilling _) begun
    have advanced (db : Db) (begun : db.Begun) : (inBlock (advanceWorkflowCancellations env (some 100)) db).2.Begun :=
      inBlock_begun (advanceWorkflowCancellations_begun _ begun) begun
    have released (db : Db) (begun : db.Begun) : (inBlock (finalizeDepStragglers env (some 100)) db).2.Begun :=
      inBlock_stilling (fun _ _ pass => finalizeDepStragglers_path pass) promotions_stilling begun
    have finalized (db : Db) (begun : db.Begun) : (inBlock (finalizeWorkflows env (some 100)) db).2.Begun :=
      inBlock_stilling (fun _ _ pass => finalizeWorkflows_path pass) finalizations_stilling begun
    cases run
    dsimp only [Db.BegunAfter]
    exact finalized _ (released _ (advanced _ (cancelled _ (expired _ (reaped _ begun)))))

/-- The calls after which a job may run that did not run before, or with another row. -/
def Command.stirs : Command → Bool
  | .finishAdmission .. | .claimJobs _ | .claimJobsWithPolicies .. | .heartbeat .. | .cancelJob .. | .expireJob ..
  | .expireWorkerLeases _ | .redriveFailed .. | .runNow .. | .reprioritize .. | .cancelWorkflow ..
  | .advanceWorkflowCancellations _ | .tick _ => true
  | _ => false

theorem Command.footprints_stilling {command : Command} (still : command.stirs = false) (used : S ∈ command.footprints env db) :
    Stilling S := by
  intro id k member
  cases command with
  | finishAdmission | claimJobs | claimJobsWithPolicies | heartbeat | cancelJob | expireJob | expireWorkerLeases | redriveFailed
  | runNow | reprioritize | cancelWorkflow | advanceWorkflowCancellations | tick => cases still
  | _ =>
    cases used
    simp [idleLabels, admissions, changesOf, completions, promotions, followups, dependents, creations, finalizations, deletions,
      firings, sweeps, failing, reclaims, expiries] at member <;> grind [Change.runs]

theorem Command.exec_begun (command : Command) (begun : db.Begun) : Yields Db.Begun (command.exec env db) := by
  cases stirs : command.stirs with
  | false =>
    intro db' run
    obtain ⟨F, used, steps⟩ := Command.exec_steps run
    exact begun.of_steps (Command.footprints_stilling stirs used) steps
  | true =>
    cases command with
    | finishAdmission => exact Yields.map (finishAdmission_begun _ _ _ _ _ begun)
    | claimJobs => exact Yields.map (claimJobs_begun begun)
    | claimJobsWithPolicies => exact Yields.map (claimJobsWithPolicies_begun _ begun)
    | heartbeat => exact Yields.map (heartbeat_begun _ _ _ _ begun)
    | cancelJob => exact Yields.map (cancelJob_begun _ _ begun)
    | expireJob => exact Yields.map (expireJob_begun _ begun)
    | expireWorkerLeases => exact Yields.map (expireWorkerLeases_begun _ begun)
    | redriveFailed =>
      exact Yields.map (yields_after fun _ => yields_after fun _ => redriveAll_begun _ _ _ begun)
    | runNow => exact runNow_begun _ begun
    | reprioritize => exact reprioritize_begun _ _ begun
    | cancelWorkflow => exact Yields.map (cancelWorkflow_begun _ _ _ begun)
    | advanceWorkflowCancellations => exact Yields.map (advanceWorkflowCancellations_begun _ begun)
    | tick => exact Yields.map (tick_begun _ begun)
    | _ => cases stirs

/-- In every reachable state the running jobs have begun. -/
theorem System.Reachable.begun {site : Site} {allowed : System → Env → Command → Prop} {s : System}
    (reachable : System.Reachable site allowed s) : s.db.Begun := by
  refine reachable.induction (I := fun s => s.db.Begun) (fun now id job stored => nomatch stored) fun begun _ step => ?_
  cases step with
  | commit _ _ run => exact Command.exec_begun _ begun _ run

end Runs

end Taskq
