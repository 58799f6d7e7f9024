import Taskq.Lifecycle.OperatorPaths
import Taskq.Model.Workflow

/-! The paths of the workflow verbs. -/
namespace Taskq
open Relational

variable {env : Env} {S : Set Label} {w : Uuid} {db db' : Db} {actor reason : Option String}

section Rows

theorem writeWorkflow_frame {r : WorkflowRow} (run : writeWorkflow w r db = .ok db') :
    ∃ stored : Workflow, stored.toWorkflowRow = r ∧
      db' = { db with workflows := db.workflows.put w stored } := by
  obtain ⟨stored, store, finish⟩ := seq_eq_ok.mp run
  cases finish
  unfold storeWorkflow at store
  split at store <;> cases store
  exact ⟨_, rfl, rfl⟩

/-- A stored workflow is rewritten. -/
theorem changeWorkflow_path {old : Workflow} {r : WorkflowRow} (run : writeWorkflow w r db = .ok db')
    (stored : db.workflows.get? w = some old)
    (changed : WorkflowChange (db.memberCounts.get? w) old.toWorkflowRow r)
    (labelled : .changeWorkflow w ∈ S) : Path env S db db' := by
  obtain ⟨row, rfl, rfl⟩ := writeWorkflow_frame run
  exact .quiet (.changeWorkflow stored changed) labelled rfl rfl

theorem reserveWorkflowMembers_frame {n : ℤ} {policy : Option String} {reserved : Db}
    (taken : reserveWorkflowMembers w n policy db = .ok reserved) : ∃ counts, reserved = { db with memberCounts := counts } := by
  simp only [reserveWorkflowMembers, seq_eq_ok] at taken
  obtain ⟨-, -, taken⟩ := taken
  split at taken
  · cases taken
  · simp only [seq_eq_ok] at taken
    obtain ⟨-, -, taken⟩ := taken
    split at taken
    · cases taken
      exact ⟨_, rfl⟩
    · cases taken
    · split_ifs at taken
      obtain ⟨counts, -, done⟩ := seq_eq_ok.mp taken
      cases done
      exact ⟨counts, rfl⟩
    · cases taken

/-- Places taken of the workflow's lifetime limit, if it has one. -/
theorem reserveWorkflowMembers_path {count : ℤ} {policy : Option String}
    (run : reserveWorkflowMembers w count policy db = .ok db') : Path env {.reserve w} db db' := by
  simp only [reserveWorkflowMembers, seq_eq_ok, ensure_eq_ok] at run
  obtain ⟨-, ⟨places, -⟩, run⟩ := run
  split at run
  · cases run
  · rename_i r stored
    simp only [seq_eq_ok, ensure_eq_ok] at run
    obtain ⟨-, -, run⟩ := run
    split at run
    · cases run
      exact .refl _
    · cases run
    · rename_i limit counts total limited counted admitted
      split at run
      · rename_i room
        simp only [putCounts, seq_eq_ok, Except.ok.injEq] at run
        obtain ⟨taken, ⟨-, -, rfl⟩, rfl⟩ := run
        refine .quiet (.reserve stored limited counted ?_ places room) rfl rfl rfl
        simpa [counted] using admitted
      · cases run
    · cases run

end Rows

section Create

/-- The labels of a creation. -/
def creations : Set Label := {l | l = .mint ∨ ∃ w, l = .createWorkflow w}

theorem insertOrFindWorkflow_path {r : WorkflowRow} {same : WorkflowRow → Bool}
    {answer : WorkflowResult} (run : insertOrFindWorkflow r same db = .ok (answer, db'))
    (running : r.status = .running) (unsealed : r.sealedAt = none)
    (unasked : r.cancelRequestedAt = none) (limited : r.memberLimit.isSome = true) :
    Path env creations db db' := by
  have minted : Path env creations db { db with nextUuid := db.nextUuid + 1 } := .mint (.inl rfl)
  simp only [insertOrFindWorkflow, newUuid] at run
  split at run
  · simp only [insertWorkflow, seq_eq_ok, ensure_eq_ok] at run
    obtain ⟨inserted, ⟨-, fresh, written, write, insert⟩, finish⟩ := run
    cases insert
    cases finish
    obtain ⟨row, rfl, rfl⟩ := writeWorkflow_frame write
    refine minted.trans (.quiet (l := .createWorkflow db.nextUuid) ?_ (.inr ⟨_, rfl⟩) rfl rfl)
    obtain ⟨limit, some'⟩ := Option.isSome_iff_exists.mp limited
    simp only [some', Option.map_some]
    exact .createWorkflow (Option.isNone_iff_eq_none.mp fresh) (Nat.lt_succ_self _) running unsealed
      unasked limited
  · simp only [seq_eq_ok] at run
    obtain ⟨-, -, finish⟩ := run
    cases finish
    exact minted

theorem createWorkflow_path {key kind : Option String} {params : Option Jsonb}
    {queues : Option (List String)} {answer : WorkflowResult}
    (run : createWorkflow env key kind params queues actor db = .ok (answer, db')) :
    Path env creations db db' := by
  simp only [createWorkflow, seq_eq_ok] at run
  obtain ⟨-, -, -, -, -, -, -, -, declared, -, insert⟩ := run
  exact insertOrFindWorkflow_path insert rfl rfl rfl rfl

theorem createContinuationWorkflow_path {key kind : Option String} {params : Option Jsonb}
    {queues : Option (List String)} {limit : Option ℤ} {policy : Option String}
    {answer : WorkflowResult}
    (run : createContinuationWorkflow env key kind params queues actor limit policy db =
      .ok (answer, db')) : Path env creations db db' := by
  simp only [createContinuationWorkflow, seq_eq_ok] at run
  obtain ⟨-, -, declared, -, insert⟩ := run
  exact insertOrFindWorkflow_path insert rfl rfl rfl rfl

end Create

section Cancellation

/-- The labels of the pass over the members of cancelled workflows. -/
def withdrawals : Set Label := {l | ∃ id, ∃ k ∈ cancelling, l = .change id k}

theorem changesOf_cancelling (id : Uuid) : changesOf id cancelling ⊆ withdrawals := by
  rintro l ⟨k, member, rfl⟩
  exact ⟨id, k, member, rfl⟩

theorem cancelMember_path {id : Uuid} (run : cancelMember env id db = .ok db') :
    Path env withdrawals db db' := by
  unfold cancelMember at run
  split at run
  · cases run
    exact .refl _
  · rename_i job found
    obtain ⟨stored, live⟩ := Option.filter_eq_some_iff.mp found
    split at run
    · rename_i running
      obtain ⟨written, write, finish⟩ := seq_eq_ok.mp run
      cases finish
      have asked : (job.cancelRequestedAt <|> some env.now).isSome = true := by
        cases job.cancelRequestedAt <;> rfl
      refine Path.trans (.rewrite (k := .requestCancel) write stored rfl ?_ (by simp) rfl rfl
        ⟨id, _, by simp [cancelling], rfl⟩) (insertEvent_path _ _ _ _ _ _ _ _)
      simp only [JobRow.life, asked]
      exact .requestCancel job.life running
    · rename_i still
      obtain ⟨written, write, finish⟩ := seq_eq_ok.mp run
      cases finish
      have waiting : unstarted job.toJobRow = true := by simp_all [cancellable]
      refine Path.trans ((cancelUnstarted_path write stored waiting rfl (fun asked => ?_) rfl).mono
        (changesOf_cancelling id)) (insertEvent_path _ _ _ _ _ _ _ _)
      cases requested : job.cancelRequestedAt <;> simp [JobRow.life]

theorem advanceWorkflows_path {ws : List Uuid} {left n : ℕ}
    (run : advanceWorkflows env ws left db = .ok (n, db')) : Path env withdrawals db db' := by
  induction ws generalizing db left n with
  | nil =>
    cases run
    exact .refl _
  | cons w ws ih =>
    simp only [advanceWorkflows, seq_eq_ok] at run
    obtain ⟨next, members, run⟩ := run
    have path : Path env withdrawals db next :=
      Moves.forEach Path.refl Path.trans (fun id _ _ _ one => cancelMember_path one) db next members
    split at run
    · cases run
      exact path
    · obtain ⟨⟨m, last⟩, rest, finish⟩ := seq_eq_ok.mp run
      cases finish
      exact path.trans (ih rest)

theorem advanceWorkflowCancellations_path {limit : Option ℤ} {n : ℤ}
    (run : advanceWorkflowCancellations env limit db = .ok (n, db')) : Path env withdrawals db db' := by
  simp only [advanceWorkflowCancellations, seq_eq_ok] at run
  obtain ⟨-, -, ⟨m, last⟩, loop, finish⟩ := run
  cases finish
  exact advanceWorkflows_path loop

/-- The labels of a cancellation of one workflow. -/
def abandons (w : Uuid) : Set Label := {.changeWorkflow w} ∪ withdrawals

theorem cancelWorkflow_path {answer : WorkflowResult}
    (run : cancelWorkflow env w actor reason db = .ok (answer, db')) : Path env (abandons w) db db' := by
  simp only [cancelWorkflow, seq_eq_ok] at run
  obtain ⟨-, -, -, -, run⟩ := run
  split at run
  · cases run
  · rename_i old stored
    split at run
    · cases run
      exact .refl _
    · rename_i running
      split at run
      · cases run
        exact .refl _
      · rename_i unasked
        simp only [seq_eq_ok] at run
        obtain ⟨requested, write, ⟨n, advanced⟩, advance, run⟩ := run
        have labelled : Label.changeWorkflow w ∈ abandons w := .inl rfl
        have cancel : Path env (abandons w) db requested :=
          changeWorkflow_path write stored (.cancel env.now actor (storedText reason)
            (not_not.mp running) (by simpa using unasked)) labelled
        have members := advanceWorkflowCancellations_path advance
        have path := cancel.trans (members.mono Set.subset_union_right)
        split at run
        · cases run
        · rename_i counts counted
          split at run
          · rename_i done
            obtain ⟨finished, finish, last⟩ := seq_eq_ok.mp run
            cases last
            obtain ⟨row, same, rfl⟩ := writeWorkflow_frame write
            have kept : advanced.workflows.get? w = some row := by
              rw [members.steps.workflow_eq w (by simp [withdrawals])]
              exact Table.get?_put_self _ _ _
            have sealed : row.sealedAt.isSome = true := by
              rw [same]
              cases old.sealedAt <;> rfl
            have running' : row.status = .running := by
              rw [same]
              exact not_not.mp running
            refine path.trans (changeWorkflow_path finish kept ?_ labelled)
            have change : WorkflowChange (advanced.memberCounts.get? w) row.toWorkflowRow _ :=
              .finish counts env.now sealed running' counted done.le
            rw [same] at change ⊢
            exact change
          · cases run
            exact path

end Cancellation

section Finish

theorem sealWorkflow_path {answer : WorkflowResult}
    (run : sealWorkflow env w actor db = .ok (answer, db')) : Path env {.changeWorkflow w} db db' := by
  unfold sealWorkflow at run
  split at run
  · cases run
  · rename_i old stored
    split at run
    · cases run
      exact .refl _
    · rename_i unsealed
      have none' : old.sealedAt = none := by simpa using unsealed
      simp only [seq_eq_ok] at run
      obtain ⟨written, write, run⟩ := run
      have counts' : written.memberCounts = db.memberCounts := by
        obtain ⟨_, -, rfl⟩ := writeWorkflow_frame write
        rfl
      split at run
      · cases run
      · rename_i counts counted
        split at run
        · rename_i done
          obtain ⟨finished, finish, last⟩ := seq_eq_ok.mp run
          cases last
          obtain ⟨_, -, rfl⟩ := writeWorkflow_frame write
          obtain ⟨row, same, rfl⟩ := writeWorkflow_frame finish
          refine .quiet (l := .changeWorkflow w) ?_ rfl rfl rfl
          simp only [Table.put_put]
          refine .changeWorkflow stored ?_
          rw [same]
          exact .sealFinished counts env.now actor none' counted done
        · cases run
          exact changeWorkflow_path write stored (.seal env.now actor none') rfl

theorem finalizeWorkflow_path {old : Workflow} {done : Bool}
    (run : finalizeWorkflow env w old db = .ok (done, db')) (stored : db.workflows.get? w = some old)
    (sealed : old.sealedAt.isSome = true) (running : old.status = .running) :
    Path env {.changeWorkflow w} db db' ∧
      ∀ other, other ≠ w → db'.workflows.get? other = db.workflows.get? other := by
  have others {r : WorkflowRow} {next : Db} (write : writeWorkflow w r db = .ok next) (other : Uuid)
      (apart : other ≠ w) : next.workflows.get? other = db.workflows.get? other := by
    obtain ⟨_, -, rfl⟩ := writeWorkflow_frame write
    exact Table.get?_put_of_ne _ _ apart
  unfold finalizeWorkflow at run
  split at run
  · cases run
  · rename_i counts counted
    split at run
    · obtain ⟨written, write, finish⟩ := seq_eq_ok.mp run
      cases finish
      exact ⟨changeWorkflow_path write stored (.touch env.now) rfl, others write⟩
    · rename_i done
      obtain ⟨written, write, finish⟩ := seq_eq_ok.mp run
      cases finish
      exact ⟨changeWorkflow_path write stored
        (.finish counts env.now sealed running counted (not_lt.mp done)) rfl, others write⟩

/-- The labels of the finalize pass. -/
def finalizations : Set Label := {l | ∃ w, l = .changeWorkflow w}

theorem finalizeAll_path {rows : List (Uuid × Workflow)} {n : ℤ}
    (run : finalizeAll env rows db = .ok (n, db')) (keys : (rows.map Prod.fst).Nodup)
    (ready : ∀ r ∈ rows, db.workflows.get? r.1 = some r.2 ∧ r.2.sealedAt.isSome = true ∧
      r.2.status = .running) : Path env finalizations db db' := by
  induction rows generalizing db n with
  | nil =>
    cases run
    exact .refl _
  | cons row rows ih =>
    obtain ⟨w, old⟩ := row
    simp only [finalizeAll, seq_eq_ok] at run
    obtain ⟨⟨done, next⟩, first, ⟨m, last⟩, rest, finish⟩ := run
    cases finish
    obtain ⟨fresh, distinct⟩ := List.nodup_cons.mp keys
    obtain ⟨stored, sealed, running⟩ := ready (w, old) (by simp)
    obtain ⟨path, others⟩ := finalizeWorkflow_path first stored sealed running
    refine (path.mono ?_).trans (ih rest distinct fun r member => ?_)
    · rintro l rfl
      exact ⟨w, rfl⟩
    · rw [others r.1 fun same => fresh (List.mem_map.mpr ⟨r, member, same⟩)]
      exact ready r (by simp [member])

theorem finalizeWorkflows_path {limit : Option ℤ} {n : ℤ}
    (run : finalizeWorkflows env limit db = .ok (n, db')) : Path env finalizations db db' := by
  simp only [finalizeWorkflows, seq_eq_ok] at run
  obtain ⟨-, -, loop⟩ := run
  refine finalizeAll_path loop ?_ fun r member => ?_
  · exact (Table.selectBy_keys_nodup _ _ _).sublist ((List.take_sublist _ _).map _)
  · obtain ⟨w, old⟩ := r
    obtain ⟨stored, ready⟩ := Table.mem_selectBy.mp (List.mem_of_mem_take member)
    simp only [decide_eq_true_eq] at ready
    exact ⟨stored, ready.1, ready.2.1⟩

end Finish

end Taskq
