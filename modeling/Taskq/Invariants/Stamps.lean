import Taskq.Invariants.Identifiers

/-! Occurrences carry the transaction that wrote them, so that a fresh call finds none of its own; and the nil
identifier names no workflow. -/
namespace Taskq
open Relational

variable {env : Env} {db db' : Db} {command : Command} {site : Site}
  {allowed : System → Env → Command → Prop} {s t : System}

section Stamps

/-- Every occurrence was there before, or this transaction wrote it. -/
def Stamps (env : Env) (db db' : Db) : Prop := ∀ key o, db'.scheduling.occurrences.get? key = some o →
  db.scheduling.occurrences.get? key = some o ∨ o.xmin = env.xid

theorem Stamps.of_eq (same : db'.scheduling.occurrences = db.scheduling.occurrences) : Stamps env db db' :=
  fun _ _ here => .inl (same ▸ here)

theorem Stamps.trans {mid : Db} (first : Stamps env db mid) (second : Stamps env mid db') : Stamps env db db' :=
  fun key o here => (second key o here).elim (first key o) .inr

theorem janitor_stamps {report : JanitorReport} (run : janitor env db = .ok (report, db')) : Stamps env db db' := by
  obtain ⟨mid, path, -, rfl⟩ := janitor_cases run
  have scheduling : mid.scheduling = db.scheduling := congrArg Prod.fst path.settings
  intro key o here
  simp only [pruneDecisions, pruneOccurrences, Table.get?_keep] at here
  exact .inl (scheduling ▸ (Option.filter_eq_some_iff.mp here).1)

theorem fireOccurrence_stamps {s : Schedule} {claim : ScheduleClaim} {decision id : Uuid} {due : Time}
    {counts counts' : FireCounts}
    (run : fireOccurrence env id s.toScheduleRow claim decision due counts db = .ok (counts', db')) :
    Stamps env db db' := by
  unfold fireOccurrence at run
  split at run
  · cases run
    exact .of_eq rfl
  · simp only [newUuid, seq_eq_ok] at run
    obtain ⟨late, -, ⟨job, last⟩, perform, finish⟩ := run
    cases finish
    have done := performFired_performed perform
    intro key o here
    by_cases own : key = (id, due)
    · subst own
      cases (Table.get?_put_self _ _ _).symm.trans here
      exact .inr rfl
    · have left := done.fewer key o ((Table.get?_put_of_ne _ _ own).symm.trans here)
      exact .inl ((Table.get?_put_of_ne _ _ own).symm.trans left)

theorem fireOccurrences_stamps {s : Schedule} {claim : ScheduleClaim} {decision id : Uuid} {dues : List Time}
    {counts counts' : FireCounts}
    (run : fireOccurrences env id s.toScheduleRow claim decision dues counts db = .ok (counts', db')) :
    Stamps env db db' := by
  induction dues generalizing db counts with
  | nil =>
    cases run
    exact .of_eq rfl
  | cons due dues ih =>
    simp only [fireOccurrences, seq_eq_ok] at run
    obtain ⟨⟨counted, fired⟩, first, rest⟩ := run
    exact (fireOccurrence_stamps first).trans (ih rest)

theorem fireSchedule_stamps {a : FireArgs} {answer : ActionResult}
    (run : fireSchedule env a db = .ok (answer, db')) : Stamps env db db' := by
  simp only [fireSchedule, newUuid, seq_eq_ok] at run
  obtain ⟨-, -, -, -, run⟩ := run
  split at run
  · cases run
  · split at run
    · cases run
      exact .of_eq rfl
    · split at run
      · cases run
        exact .of_eq rfl
      · simp only [fireUnderClaim, seq_eq_ok] at run
        obtain ⟨outcome, -, ⟨counts, fired⟩, fire, written, write, finish⟩ := run
        cases finish
        obtain ⟨_, -, rfl⟩ := writeSchedule_frame write
        exact Stamps.trans (.of_eq rfl) ((fireOccurrences_stamps fire).trans (.of_eq rfl))

theorem Command.stamps (run : command.exec env db = .ok db') : Stamps env db db' := by
  have kept := (Command.exec_effect run).2.2
  cases command with
  | fireSchedule => exact (map_snd_eq_ok.mp run).elim fun _ run => fireSchedule_stamps run
  | janitor => exact (map_snd_eq_ok.mp run).elim fun _ run => janitor_stamps run
  | ensureQueue | pauseQueue | resumeQueue | setConcurrencyLimit | setFlowLimit | setBreakerConfig | setBreakerRate
  | setBreakerLatency | tripBreaker | forceCloseBreaker | setPriorityAging | reserveAdmission | finishAdmission
  | cancelAdmission => exact .of_eq (congrArg (·.occurrences) kept.1)
  | bindQueueAdmissionOwner | adoptQueueAdmissionOwner | rotateQueueAdmissionOwner => exact .of_eq kept.2
  | putSchedule | putManagedSchedule | setScheduleState | retireSchedule | setScheduleSmear | claimSchedules
  | scheduleError => exact .of_eq kept.2.2
  | _ => exact .of_eq (congrArg (·.occurrences) kept.1)

/-- No occurrence carries a later transaction than the last. -/
theorem System.Reachable.stamped (reachable : System.Reachable site allowed s) :
    ∀ key o, s.db.scheduling.occurrences.get? key = some o → o.xmin ≤ s.xid := by
  refine reachable.induction (I := fun s => ∀ key o, s.db.scheduling.occurrences.get? key = some o → o.xmin ≤ s.xid)
    (fun now key o here => ?_) fun {t u env command} ih _ step key o here => ?_
  · simp [System.installed, Db.installed] at here
  · cases step with
    | commit server fresh run =>
      obtain old | own := Command.stamps run key o here
      · exact (ih key o old).trans fresh.le
      · exact own.le

/-- A job of a fresh call is not the job of an occurrence. -/
theorem System.Reachable.unproven (reachable : System.Reachable site allowed s) (fresh : s.xid < env.xid)
    (scheduling : db.scheduling = s.db.scheduling) (owner : ℕ) (r : JobRow) :
    occurrenceProvenance env db owner r = false := by
  unfold occurrenceProvenance
  split
  · rfl
  · rename_i header _
    rw [Bool.and_eq_false_iff]
    refine .inr (decide_eq_false (not_not.mpr (List.length_eq_zero_iff.mpr (List.eq_nil_iff_forall_not_mem.mpr ?_))))
    intro ⟨key, o⟩ member
    obtain ⟨stored, good⟩ := Table.mem_select.mp member
    rw [scheduling] at stored
    have own : o.xmin = env.xid := (of_decide_eq_true good).2.2.2.1
    exact absurd (own ▸ reachable.stamped key o stored) (not_le.mpr fresh)

end Stamps

section Nil

/-- The nil identifier is not handed out, and names no workflow. -/
structure Named (c : Core) : Prop where
  next : c.nextUuid ≠ 0
  absent : c.workflows.get? 0 = none

/-- Only the two creations enter a workflow. -/
theorem Command.footprints_create {F : Set Label} (used : F ∈ command.footprints env db) {w : Uuid}
    (member : .createWorkflow w ∈ F) : (∃ key kind params queues actor,
      command = .createWorkflow key kind params queues actor) ∨ ∃ key kind params queues actor limit policy,
      command = .createContinuationWorkflow key kind params queues actor limit policy := by
  cases command with
  | createWorkflow => exact .inl ⟨_, _, _, _, _, rfl⟩
  | createContinuationWorkflow => exact .inr ⟨_, _, _, _, _, _, _, rfl⟩
  | claimJobs | claimJobsWithPolicies =>
    obtain rfl | rfl := used <;> simp [starts, reclaims, expiries, dependents] at member
  | _ =>
    cases used
    simp [idleLabels, changesOf, dependents, sweeps, revocations, reclaims, expiries, redrives, promotions, abandons,
      withdrawals, finalizations, ticks, deletions, admissions, receipts, firings, completions, followups] at member

theorem insertOrFindWorkflow_named {r : WorkflowRow} {same : WorkflowRow → Bool} {answer : WorkflowResult}
    (run : insertOrFindWorkflow r same db = .ok (answer, db')) (named : Named db.toCore) :
    db'.workflows.get? 0 = none := by
  simp only [insertOrFindWorkflow, newUuid] at run
  split at run
  · simp only [insertWorkflow, seq_eq_ok, ensure_eq_ok] at run
    obtain ⟨inserted, ⟨-, -, written, write, insert⟩, finish⟩ := run
    cases insert
    cases finish
    obtain ⟨row, rfl, rfl⟩ := writeWorkflow_frame write
    exact (Table.get?_put_of_ne _ _ named.next.symm).trans named.absent
  · simp only [seq_eq_ok] at run
    obtain ⟨-, -, finish⟩ := run
    cases finish
    exact named.absent

theorem Named.step (named : Named db.toCore) (run : command.exec env db = .ok db') : Named db'.toCore := by
  obtain ⟨F, used, steps⟩ := Command.exec_steps run
  refine ⟨Nat.ne_of_gt ((Nat.pos_of_ne_zero named.next).trans_le steps.nextUuid_le), ?_⟩
  by_cases creates : .createWorkflow 0 ∈ F
  · obtain ⟨key, kind, params, queues, actor, rfl⟩ | ⟨key, kind, params, queues, actor, limit, policy, rfl⟩ :=
      Command.footprints_create used creates
    · obtain ⟨answer, run⟩ := map_snd_eq_ok.mp run
      simp only [createWorkflow, seq_eq_ok] at run
      obtain ⟨-, -, -, -, -, -, -, -, declared, -, insert⟩ := run
      exact insertOrFindWorkflow_named insert named
    · obtain ⟨answer, run⟩ := map_snd_eq_ok.mp run
      simp only [createContinuationWorkflow, seq_eq_ok] at run
      obtain ⟨-, -, declared, -, insert⟩ := run
      exact insertOrFindWorkflow_named insert named
  · refine steps.relates (R := fun c d => c.workflows.get? 0 = none → d.workflows.get? 0 = none) (fun _ => id)
      (fun first second => second ∘ first) (fun {l c d} labelled h gone => ?_) named.absent
    have move := h.workflow 0
    rw [gone] at move
    generalize d.workflows.get? 0 = after at move ⊢
    cases move with
    | same => rfl
    | create label => exact absurd (label ▸ labelled) creates

theorem System.Reachable.named (reachable : System.Reachable site allowed s) : Named s.db.toCore :=
  reachable.induction (I := fun s => Named s.db.toCore) (fun _ => ⟨by simp [System.installed, Db.installed], rfl⟩)
    fun named _ step => named.step step.exec

end Nil

end Taskq
