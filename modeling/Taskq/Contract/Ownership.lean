import Taskq.Contract.BulkSpecs
import Taskq.Contract.Overlaps
import Taskq.Invariants.Memberships
import Taskq.Invariants.Owners
import Taskq.Lifecycle.Vouching

/-! Who may admit a job into a queue that has an owner, and what that says about the jobs that are there. -/
namespace Taskq
open Relational

variable {site : Site} {allowed : System → Env → Command → Prop} {s t u : System} {env : Env} {db mid db' : Db}
  {command : Command} {id : Uuid} {job : Job} {owner : ℕ} {r : JobRow}

section Rights

/-- A schedule of the owner enqueues jobs of this type into this queue. -/
structure Commissions (owner : ℕ) (r : JobRow) (s : ScheduleRow) : Prop where
  owned : s.admissionOwnerOid = some owner
  kind : s.target.fieldText? "kind" = some "job"
  queue : s.target.fieldText? "queue" = some r.queue
  type : s.target.fieldText? "job_type" = some r.jobType

/-- A fire call of a housekeeper dispatches the job for an occurrence of a schedule of the owner. -/
structure DispatchedFor (env : Env) (a : FireArgs) (owner : ℕ) (id : Uuid) (r : JobRow) (db db' : Db) : Prop where
  housekeeper : env.housekeeper = true
  schedule : ∃ s, db.scheduling.schedules.get? a.scheduleId = some s ∧ Commissions owner r s.toScheduleRow
  occurrence : ∃ due ∈ a.occurrences, ∃ o, db.scheduling.occurrences.get? (a.scheduleId, due) = none ∧
    db'.scheduling.occurrences.get? (a.scheduleId, due) = some o ∧ o.jobId = some id

/-- The job continues a job of a queue of the same owner that the call lets succeed. -/
structure ContinuedFrom (parent : Uuid) (owner : ℕ) (r : JobRow) (db db' : Db) : Prop where
  child : r.parentJobId = some parent
  ran : ∃ row, db.jobs.get? parent = some row ∧ row.status = .running ∧ db.admissionOwner row.queue = some owner
  ended : ∃ row, db'.jobs.get? parent = some row ∧ row.status = .succeeded

/-- The rights by which a call admits a job into a queue of an owner. -/
inductive Entitled (env : Env) (owner : ℕ) (id : Uuid) (r : JobRow) (db db' : Db) : Command → Prop
  | member {command : Command} (member : env.memberOf owner = true) : Entitled env owner id r db db' command
  | fired {a : FireArgs} (dispatched : DispatchedFor env a owner id r db db') :
      Entitled env owner id r db db' (.fireSchedule a)
  | continued {command : Command} {parent : Uuid} (completes : command.completes = some parent)
      (continued : ContinuedFrom parent owner r db db') : Entitled env owner id r db db' command

/-- What a row that passes the guard of an owned queue has. -/
theorem guard_admits (passes : admissionOwnerGuardInsert env r db = .ok ()) (owned : db.admissionOwner r.queue = some owner) :
    env.roleExists owner = true ∧ (env.memberOf owner = true ∨
      (env.housekeeper = true ∧ occurrenceProvenance env db owner r = true) ∨ continuationProvenance db owner r = true) := by
  unfold Db.admissionOwner at owned
  unfold admissionOwnerGuardInsert at passes
  rw [owned] at passes
  simp only [seq_eq_ok, ensure_eq_ok] at passes
  obtain ⟨-, exists', right⟩ := passes
  exact ⟨exists', right⟩

/-- The occurrence of which a job has the header was written by this very transaction, for a schedule of the owner. -/
theorem commissions_of_provenance (provenance : occurrenceProvenance env db owner r = true) :
    ∃ key o s, db.scheduling.occurrences.get? key = some o ∧ o.xmin = env.xid ∧
      db.scheduling.schedules.get? key.1 = some s ∧ Commissions owner r s.toScheduleRow := by
  unfold occurrenceProvenance at provenance
  split at provenance
  · cases provenance
  · obtain ⟨-, some'⟩ := Bool.and_eq_true _ _ |>.mp provenance
    obtain ⟨⟨key, o⟩, member⟩ := List.exists_mem_of_length_pos (Nat.pos_of_ne_zero (of_decide_eq_true some'))
    obtain ⟨stored, good⟩ := Table.mem_select.mp member
    simp only [decide_eq_true_eq, Option.any_eq_true] at good
    obtain ⟨-, -, -, own, -, s, there, commissions⟩ := good
    simp only [Bool.and_eq_true, decide_eq_true_eq] at commissions
    obtain ⟨⟨⟨owned, kind⟩, queue⟩, type⟩ := commissions
    exact ⟨key, o, s, stored, own, there, owned, kind, queue, type⟩

theorem succeeded_of_provenance (provenance : continuationProvenance db owner r = true) :
    ∃ parent row, r.parentJobId = some parent ∧ db.jobs.get? parent = some row ∧ row.status = .succeeded ∧
      db.admissionOwner row.queue = some owner := by
  unfold continuationProvenance at provenance
  split at provenance
  · rename_i parent key child keyed
    rw [Bool.and_eq_true] at provenance
    have inner := provenance.2
    split at inner
    · cases inner
    · rename_i row stored
      simp only [Bool.and_eq_true, decide_eq_true_eq, Option.any_eq_true] at inner
      obtain ⟨⟨succeeded, q, queue, owned⟩, -⟩ := inner
      refine ⟨parent, row, child, stored, succeeded, ?_⟩
      rw [Db.admissionOwner, queue]
      exact owned
  · cases provenance

end Rights

section Producers

/-- A call of a producer that passes the guard of an owned queue is a member's. -/
theorem Vouches.member (vouches : Vouches env producerRow db db') (unspent : Unspent env db)
    (absent : db.jobs.get? id = none) (here : db'.jobs.get? id = some job)
    (owned : db.admissionOwner job.queue = some owner) : env.roleExists owner = true ∧ env.memberOf owner = true := by
  obtain ⟨shape, at', queues, scheduling, -, guard⟩ := vouches.guarded id job absent here
  have passes := unspent.owned shape queues scheduling guard
  unfold Db.admissionOwner at owned
  unfold checkAdmissionOwner at passes
  rw [owned] at passes
  simp only [seq_eq_ok, ensure_eq_ok] at passes
  obtain ⟨-, exists', member⟩ := passes
  exact ⟨exists', member⟩

/-- The job of a reservation is admitted by the finish, and then linked to it. -/
theorem finishAdmission_admits {queue : String} {key : Option String} {handle : Option Uuid} {content receipt : Option Jsonb}
    {answer : FinishResult} (run : finishAdmission env queue key handle content receipt db = .ok (answer, db'))
    (absent : db.jobs.get? id = none) (here : db'.jobs.get? id = some job) :
    ∃ (mid : Db) (first : Job), Vouches env producerRow db mid ∧ mid.jobs.get? id = some first ∧ first.queue = job.queue := by
  obtain ⟨k, key, row, -, -, -, ⟨-, -, -, rfl⟩ | ⟨-, -, args, jobId, entered, linked, parsed, enters, links, -, rfl⟩⟩ :=
    finishAdmission_cases run
  · cases absent.symm.trans here
  · have outcome := enqueue_enqueued enters
    obtain ⟨-, -, -, ⟨old, q, m, there, -⟩, -⟩ := outcome.created_row
    refine ⟨entered, ?_⟩
    simp only [updateJob, there] at links
    obtain ⟨written, _, _, _, _, same, -, -, frame⟩ := writeJob_frame links
    have jobs : linked.jobs = entered.jobs.put jobId written := by rw [frame]
    have here : linked.jobs.get? id = some job := here
    rw [jobs, Table.get?_put] at here
    split_ifs at here with own
    · cases here
      subst own
      exact ⟨old, outcome.vouches, there, by rw [same]⟩
    · exact ⟨job, outcome.vouches, here, rfl⟩

end Producers

section Dispatch

variable {claim : ScheduleClaim} {decision : Uuid} {schedule : Schedule} {counts counts' : FireCounts}

/-- The occurrences of this transaction are of one schedule. -/
def Dedicated (env : Env) (scheduleId : Uuid) (db : Db) : Prop :=
  ∀ key o, db.scheduling.occurrences.get? key = some o → o.xmin = env.xid → key.1 = scheduleId

/-- The caller admits into the queue of the job, or dispatches it for the schedule. -/
def MayDispatch (env : Env) (scheduleId : Uuid) (owner : ℕ) (r : JobRow) (db : Db) : Prop :=
  env.roleExists owner = true ∧ (env.memberOf owner = true ∨ env.housekeeper = true ∧
    ∃ s, db.scheduling.schedules.get? scheduleId = some s ∧ Commissions owner r s.toScheduleRow)

theorem fireOccurrence_mayDispatch {scheduleId : Uuid} {due : Time} (dedicated : Dedicated env scheduleId db)
    (run : fireOccurrence env scheduleId schedule.toScheduleRow claim decision due counts db = .ok (counts', db'))
    (absent : db.jobs.get? id = none) (here : db'.jobs.get? id = some job)
    (owned : db.admissionOwner job.queue = some owner) : MayDispatch env scheduleId owner job.toJobRow db := by
  unfold fireOccurrence at run
  split at run
  · cases run
    cases absent.symm.trans here
  · simp only [newUuid, seq_eq_ok] at run
    obtain ⟨late, -, ⟨made, last⟩, perform, finish⟩ := run
    cases finish
    unfold performFired performOccurrence at perform
    split at perform
    · split at perform
      · simp only [seq_eq_ok] at perform
        obtain ⟨-, -, ⟨report, cleaned⟩, clean, done⟩ := perform
        cases done
        obtain ⟨mid, registers, -, rfl⟩ := janitor_cases clean
        have gone : mid.jobs.get? id = none := registers.trail.steps.absent (fun p victims => by
          obtain ⟨victim, same⟩ := victims
          cases same) absent
        cases gone.symm.trans here
      · simp only [seq_eq_ok] at perform
        obtain ⟨args, -, ⟨⟨created, fresh⟩, entered⟩, enters, done⟩ := perform
        cases done
        obtain ⟨shape, at', queues, scheduling, -, guard⟩ :=
          (enqueue_enqueued enters).vouches.guarded id job absent here
        have owned' : at'.admissionOwner job.queue = some owner := (Db.admissionOwner_congr queues _).trans owned
        obtain ⟨exists', member | ⟨housekeeper, provenance⟩ | continues⟩ := guard_admits guard owned'
        · exact ⟨exists', .inl member⟩
        · obtain ⟨key, o, s, stored, own, there, commissions⟩ := commissions_of_provenance provenance
          rw [scheduling] at stored there
          simp only [Db.putOccurrence, Table.get?_put] at stored there
          -- the row of the occurrence that is performed, or one that an earlier turn of this call has left
          have same : key.1 = scheduleId := by
            split_ifs at stored with own'
            · rw [own']
            · exact dedicated key o stored own
          rw [same] at there
          exact ⟨exists', .inr ⟨housekeeper, s, there, commissions⟩⟩
        · cases (continuationProvenance_producer owner at' shape).symm.trans continues
    · cases perform
      cases absent.symm.trans here

theorem fireOccurrences_mayDispatch {scheduleId : Uuid} {dues : List Time} (dedicated : Dedicated env scheduleId db)
    (run : fireOccurrences env scheduleId schedule.toScheduleRow claim decision dues counts db = .ok (counts', db'))
    (absent : db.jobs.get? id = none) (here : db'.jobs.get? id = some job)
    (owned : db.admissionOwner job.queue = some owner) : MayDispatch env scheduleId owner job.toJobRow db := by
  induction dues generalizing db counts with
  | nil =>
    cases run
    cases absent.symm.trans here
  | cons due dues ih =>
    simp only [fireOccurrences, seq_eq_ok] at run
    obtain ⟨⟨counted, fired⟩, first, rest⟩ := run
    have queues := (fireOccurrence_keeps first).1
    have performs := fireOccurrence_performs first
    cases early : fired.jobs.get? id with
    | none =>
      have later : Dedicated env scheduleId fired := by
        intro key o stored own
        obtain old | ⟨same, -⟩ := performs.added key o stored
        · exact dedicated key o old own
        · exact same
      obtain ⟨exists', right⟩ := ih later rest early ((Db.admissionOwner_congr queues _).trans owned)
      rw [performs.schedules] at right
      exact ⟨exists', right⟩
    | some old =>
      obtain ⟨enqueues, -⟩ := performs.jobs id old absent early
      cases ((fireOccurrences_performs rest).rows enqueues id old early).symm.trans here
      exact fireOccurrence_mayDispatch dedicated first absent early owned

/-- A job that a schedule fires. -/
theorem fireSchedule_entitled {a : FireArgs} {answer : ActionResult} (dedicated : Dedicated env a.scheduleId db)
    (run : fireSchedule env a db = .ok (answer, db')) (absent : db.jobs.get? id = none) (here : db'.jobs.get? id = some job)
    (owned : db.admissionOwner job.queue = some owner) :
    env.roleExists owner = true ∧ Entitled env owner id job.toJobRow db db' (.fireSchedule a) := by
  simp only [fireSchedule, newUuid, seq_eq_ok] at run
  obtain ⟨-, -, -, -, run⟩ := run
  split at run
  · cases run
  · split at run
    · cases run
      cases absent.symm.trans here
    · split at run
      · cases run
        cases absent.symm.trans here
      · simp only [fireUnderClaim, seq_eq_ok] at run
        obtain ⟨outcome, -, ⟨counts, fired⟩, fire, written, write, finish⟩ := run
        cases finish
        obtain ⟨_, -, rfl⟩ := writeSchedule_frame write
        have here' : fired.jobs.get? id = some job := here
        have minted : Dedicated env a.scheduleId { db with nextUuid := db.nextUuid + 1 } := dedicated
        obtain ⟨exists', member | ⟨housekeeper, schedule⟩⟩ := fireOccurrences_mayDispatch minted fire absent here' owned
        · exact ⟨exists', .member member⟩
        · obtain ⟨-, -, due, selected, o, new, there, named⟩ := (fireOccurrences_performs fire).jobs id job absent here'
          exact ⟨exists', .fired ⟨housekeeper, schedule, due, selected, o, new, there, named⟩⟩

end Dispatch

section Followups

/-- The jobs of a completion. -/
theorem CompletionRun.entitled {jobId : Uuid} {specs : List Jsonb} {parent : Job} (reachable : System.Reachable site allowed s)
    (fresh : s.xid < env.xid) (stored : s.db.jobs.get? jobId = some parent) (running : parent.status = .running)
    (run : CompletionRun env jobId parent specs s.db db') (completes : command.completes = some jobId)
    (absent : s.db.jobs.get? id = none) (here : db'.jobs.get? id = some job)
    (owned : s.db.admissionOwner job.queue = some owner) :
    env.roleExists owner = true ∧ Entitled env owner id job.toJobRow s.db db' command := by
  cases run with
  | @intro reserved mid settled taken settle follow kept continues =>
    have reserve := reserveFollowups_path env taken
    have before := reserve.steps.absent (fun p ⟨w, same⟩ => nomatch same) absent
    have between := settle.steps.absent (fun p entered => by simp [changesOf, promotions] at entered) before
    have vouches := enqueueFollowups_vouches follow continues.stored
    obtain ⟨⟨child, -⟩, at', queues, scheduling, rows, guard⟩ := vouches.guarded id job between here
    have first := (reserve.mono (Set.subset_univ _)).trans (settle.mono (Set.subset_univ _))
    have queues' : at'.queues = s.db.queues := queues.trans first.kept.2.1
    have owned' : at'.admissionOwner job.queue = some owner := (Db.admissionOwner_congr queues' _).trans owned
    obtain ⟨exists', member | ⟨-, provenance⟩ | provenance⟩ := guard_admits guard owned'
    · exact ⟨exists', .member member⟩
    · have none' := reachable.unproven fresh (scheduling.trans first.kept.1) owner job.toJobRow
      cases none'.symm.trans provenance
    · obtain ⟨p, row, child', there, succeeded, owns⟩ := succeeded_of_provenance provenance
      cases child.symm.trans child'
      cases (rows jobId settled continues.stored).symm.trans there
      have queue : settled.queue = parent.queue := congrArg Identity.queue kept
      have owns : s.db.admissionOwner parent.queue = some owner := by
        rw [← queue, ← Db.admissionOwner_congr queues']
        exact owns
      exact ⟨exists', .continued completes ⟨child, ⟨parent, stored, running, owns⟩,
        settled, vouches.kept jobId settled continues.stored, succeeded⟩⟩

end Followups

section Calls

/-- The calls that admit jobs. -/
def Command.admits : Command → Bool
  | .enqueue _ | .tryEnqueue _ | .enqueueMany .. | .finishAdmission .. | .fireSchedule _ | .completeJob ..
  | .completeJobWithPolicy .. => true
  | _ => false

theorem Command.footprints_admits {F : Set Label} (used : F ∈ command.footprints env db) {parent : Option Uuid}
    (member : .enter id parent ∈ F) : command.admits = true := by
  cases command with
  | enqueue | tryEnqueue | enqueueMany | finishAdmission | fireSchedule | completeJob | completeJobWithPolicy => rfl
  | claimJobs | claimJobsWithPolicies =>
    obtain rfl | rfl := used <;>
      simp [starts, reclaims, expiries, dependents] at member
  | _ =>
    cases used
    simp [idleLabels, changesOf, dependents, sweeps, revocations, reclaims, expiries, redrives,
      promotions, creations, abandons, withdrawals, finalizations, ticks, deletions] at member

/-- Only these calls add jobs. -/
theorem Command.exec_admits (run : command.exec env db = .ok db') (absent : db.jobs.get? id = none)
    (here : db'.jobs.get? id = some job) : command.admits = true := by
  obtain ⟨F, used, steps⟩ := Command.exec_steps run
  obtain ⟨parent, e, entered⟩ := steps.entered absent here
  exact Command.footprints_admits used entered.labelled

theorem System.Reachable.dedicated (reachable : System.Reachable site allowed s) (fresh : s.xid < env.xid) (scheduleId : Uuid) :
    Dedicated env scheduleId s.db := by
  intro key o stored own
  exact absurd (own ▸ reachable.stamped key o stored) (not_le.mpr fresh)

theorem Completes.entitled {jobId attemptId : Uuid} {specs : List Jsonb} {answer : SettleResult}
    (completes : Completes env jobId attemptId specs s.db db' answer) (reachable : System.Reachable site allowed s)
    (fresh : s.xid < env.xid) (names : command.completes = some jobId) (absent : s.db.jobs.get? id = none)
    (here : db'.jobs.get? id = some job) (owned : s.db.admissionOwner job.queue = some owner) :
    env.roleExists owner = true ∧ Entitled env owner id job.toJobRow s.db db' command := by
  obtain ⟨-, rfl, -⟩ | ⟨parent, held, run, -⟩ := completes
  · cases absent.symm.trans here
  · obtain ⟨stored, running, -⟩ := runningJob_eq_some.mp held
    exact run.entitled reachable fresh stored running names absent here owned

/-- A call admits a job into an owned queue only by right. -/
theorem Command.exec_entitled (reachable : System.Reachable site allowed s) (fresh : s.xid < env.xid)
    (run : command.exec env s.db = .ok db') (absent : s.db.jobs.get? id = none) (here : db'.jobs.get? id = some job)
    (owned : s.db.admissionOwner job.queue = some owner) :
    env.roleExists owner = true ∧ Entitled env owner id job.toJobRow s.db db' command := by
  have unspent := reachable.unspent fresh
  have producer {mid : Db} {first : Job} (vouches : Vouches env producerRow s.db mid) (there : mid.jobs.get? id = some first)
      (queue : first.queue = job.queue) :
      env.roleExists owner = true ∧ Entitled env owner id job.toJobRow s.db db' command := by
    obtain ⟨exists', member⟩ := vouches.member unspent absent there (queue ▸ owned)
    exact ⟨exists', .member member⟩
  have adds := Command.exec_admits run absent here
  cases command with
  | enqueue =>
    obtain ⟨answer, run⟩ := map_snd_eq_ok.mp run
    exact producer (enqueue_enqueued run).vouches here rfl
  | tryEnqueue =>
    obtain ⟨answer, run⟩ := map_snd_eq_ok.mp run
    obtain rfl | ⟨answer, enters⟩ := tryEnqueue_cases run
    · cases absent.symm.trans here
    · exact producer (enqueue_enqueued enters).vouches here rfl
  | enqueueMany =>
    obtain ⟨answer, run⟩ := map_snd_eq_ok.mp run
    exact producer (enqueueMany_vouches run) here rfl
  | finishAdmission =>
    obtain ⟨answer, run⟩ := map_snd_eq_ok.mp run
    obtain ⟨mid, first, vouches, there, queue⟩ := finishAdmission_admits run absent here
    exact producer vouches there queue
  | fireSchedule a =>
    obtain ⟨answer, run⟩ := map_snd_eq_ok.mp run
    exact fireSchedule_entitled (reachable.dedicated fresh a.scheduleId) run absent here owned
  | completeJob =>
    obtain ⟨answer, run⟩ := map_snd_eq_ok.mp run
    exact (completeJob_completes run).entitled reachable fresh rfl absent here owned
  | completeJobWithPolicy =>
    obtain ⟨answer, run⟩ := map_snd_eq_ok.mp run
    exact (completeJobWithPolicy_completes run).entitled reachable fresh rfl absent here owned
  | _ => cases adds

end Calls

section Runs

/-- A call of the run that led here admitted the job, into a queue that the role owned then. -/
structure AdmittedAt (site : Site) (allowed : System → Env → Command → Prop) (owner : ℕ) (env : Env) (command : Command)
    (t u s : System) (id : Uuid) (job : Job) : Prop where
  reached : System.Reachable site allowed t
  permitted : allowed t env command
  step : System.Step site env command t u
  later : System.Run site allowed u s
  absent : t.db.jobs.get? id = none
  here : u.db.jobs.get? id = some job
  owned : t.db.admissionOwner job.queue = some owner
  role : env.roleExists owner = true

/-- The job goes back to one that a member of the owner admitted, or that a schedule of the owner fired: it is that job,
or it continues one that succeeded when it came in and that goes back to it. -/
inductive Descends (site : Site) (allowed : System → Env → Command → Prop) (owner : ℕ) : System → Uuid → Prop
  | member {env : Env} {command : Command} {t u s : System} {id : Uuid} {job : Job}
      (admitted : AdmittedAt site allowed owner env command t u s id job) (member : env.memberOf owner = true) :
      Descends site allowed owner s id
  | fired {env : Env} {a : FireArgs} {t u s : System} {id : Uuid} {job : Job}
      (admitted : AdmittedAt site allowed owner env (.fireSchedule a) t u s id job)
      (dispatched : DispatchedFor env a owner id job.toJobRow t.db u.db) : Descends site allowed owner s id
  | continued {env : Env} {command : Command} {t u s : System} {id parent : Uuid} {job : Job}
      (admitted : AdmittedAt site allowed owner env command t u s id job)
      (continued : ContinuedFrom parent owner job.toJobRow t.db u.db) (earlier : Descends site allowed owner t parent) :
      Descends site allowed owner s id

theorem AdmittedAt.trans {v : System} (admitted : AdmittedAt site allowed owner env command t u s id job)
    (run : System.Run site allowed s v) : AdmittedAt site allowed owner env command t u v id job :=
  { admitted with later := admitted.later.trans run }

theorem Descends.trans (descends : Descends site allowed owner s id) (run : System.Run site allowed s t) :
    Descends site allowed owner t id := by
  cases descends with
  | member admitted member => exact .member (admitted.trans run) member
  | fired admitted dispatched => exact .fired (admitted.trans run) dispatched
  | continued admitted continued earlier => exact .continued (admitted.trans run) continued earlier

/-- A job that is live on an owned queue after a call was live there before, or the call admitted it by right. -/
theorem System.Step.live_owned (reachable : System.Reachable site allowed t) (step : System.Step site env command t u)
    (here : u.db.jobs.get? id = some job) (live : job.status.active = true)
    (owned : u.db.admissionOwner job.queue = some owner) :
    (∃ was, t.db.jobs.get? id = some was ∧ was.status.active = true ∧ t.db.admissionOwner was.queue = some owner) ∨
      t.db.jobs.get? id = none ∧ t.db.admissionOwner job.queue = some owner ∧ env.roleExists owner = true ∧
        Entitled env owner id job.toJobRow t.db u.db command := by
  have run := step.exec
  have fresh : t.xid < env.xid := by cases step; assumption
  cases stored : t.db.jobs.get? id with
  | none =>
    have adds := Command.exec_admits run stored here
    have other : command.assignsOwner = false := by cases command <;> first | rfl | cases adds
    rw [Command.exec_owners run other] at owned
    obtain ⟨role, right⟩ := Command.exec_entitled reachable fresh run stored here owned
    exact .inr ⟨rfl, owned, role, right⟩
  | some was =>
    refine .inl ⟨was, rfl, ?_⟩
    have minted := reachable.minted
    obtain ⟨was', before, kept, -⟩ := Command.exec_law run (minted.jobs id (by simp [stored])) here
    cases stored.symm.trans before
    have queue : job.queue = was.queue := congrArg Identity.queue kept
    cases assigns : command.assignsOwner with
    | false =>
      rw [Command.exec_owners run assigns, queue] at owned
      refine ⟨?_, owned⟩
      by_contra ended
      have finished : was.status.terminal = true := by simpa [JobStatus.active] using ended
      have still := Command.exec_over run minted stored finished (by rw [owned]; rfl) here
      simp [JobStatus.active, still] at live
    | true =>
      obtain ⟨name, role, q, handover⟩ := Command.exec_handover run assigns
      have same : was = job := by
        have jobs : u.db.jobs = t.db.jobs := congrArg Core.jobs handover.toCore
        rw [jobs, stored] at here
        exact Option.some.inj here
      subst same
      have apart : was.queue ≠ name := by
        intro own
        obtain ⟨-, empty, -⟩ | ⟨-, ended, -⟩ := handover.quiet
        · exact empty id was stored own
        · cases live.symm.trans (ended id was stored own)
      rw [handover.owner, if_neg apart] at owned
      exact ⟨live, owned⟩

/-- Whatever waits or runs on a queue that has an owner came in by right while the owner was the same: it descends from
jobs that members of the role admitted, or that schedules of the role fired. -/
theorem live_jobs_of_owned_queues_descend (reachable : System.Reachable site allowed s)
    (here : s.db.jobs.get? id = some job) (live : job.status.active = true)
    (owned : s.db.admissionOwner job.queue = some owner) : Descends site allowed owner s id := by
  obtain ⟨now, run⟩ := reachable
  induction run generalizing id job owner with
  | start => cases here
  | @step t u env command first permitted step ih =>
    have reached : System.Reachable site allowed t := ⟨now, first⟩
    obtain ⟨was, stored, before, owns⟩ | ⟨absent, owns, role, right⟩ := step.live_owned reached here live owned
    · exact (ih stored before owns).trans (.step .start permitted step)
    · have admitted : AdmittedAt site allowed owner env command t u u id job :=
        ⟨reached, permitted, step, .start, absent, here, owns, role⟩
      cases right with
      | member member => exact .member admitted member
      | fired dispatched => exact .fired admitted dispatched
      | continued _ continued =>
        obtain ⟨row, there, running, owns'⟩ := continued.ran
        exact .continued admitted continued (ih there (by rw [running]; rfl) owns')

/-- Calls made one after the other, each in its own surroundings. -/
def System.calls : List (Env × Command) → System → Call System
  | [], s => .ok s
  | (env, command) :: rest, s => do
    let db ← command.exec env s.db
    System.calls rest ⟨db, env.now, env.xid, s.admitted ++ newJobs s.db db⟩

theorem System.calls_run {calls : List (Env × Command)} (run : System.calls calls s = .ok t)
    (server : ∀ call ∈ calls, call.1.toSite = site) (order : (s.xid :: calls.map (·.1.xid)).Pairwise (· < ·)) :
    System.Run site anyCall s t := by
  induction calls generalizing s with
  | nil =>
    cases run
    exact .start
  | cons call rest ih =>
    obtain ⟨db, first, run⟩ := seq_eq_ok.mp run
    obtain ⟨fresh, later⟩ := List.pairwise_cons.mp order
    have one : System.Run site anyCall s _ :=
      .step .start trivial (.commit (server call (by simp)) (fresh _ (by simp)) first)
    exact one.trans (ih run (fun other member => server other (by simp [member])) later)

/-- The surroundings of an operator's call to whom every role is role 7. -/
def ownerEnv (xid : ℕ) : Env := { Env.alone .digits 0 xid with ownerRole := fun _ => some 7 }

/-- A queue that gets an owner, and then two jobs and a schedule; one of the jobs is cancelled. -/
def ownedQueue : List (Env × Command) :=
  [(ownerEnv 1, .ensureQueue (some "q") none), (ownerEnv 2, .bindQueueAdmissionOwner "q" (some "r")),
    (ownerEnv 3, .enqueue (.simple "q")), (ownerEnv 4, .enqueue (.simple "q")), (ownerEnv 5, .cancelJob 3 none none),
    (ownerEnv 6, .putSchedule (some "s") allMinutes (some "a") none)]

/-- The calls are a run. -/
theorem ownedQueue_run {p : System → Bool} {n : ℕ}
    (played : (System.calls (ownedQueue.take n) (.installed .digits 0)).toOption.any p = true) :
    ∃ s : System, System.Reachable .digits anyCall s ∧ p s = true := by
  obtain ⟨s, calls, good⟩ := (Option.any_eq_true _ _).mp played
  refine ⟨s, ⟨0, System.calls_run (toOption_eq_some.mp calls) ?_ ?_⟩, good⟩
  · intro call member
    have served : ∀ call ∈ ownedQueue, call.1.toSite = .digits := by simp [ownedQueue, ownerEnv, Env.alone]
    exact served call (List.mem_of_mem_take member)
  · have order : (0 :: ownedQueue.map (·.1.xid)).Pairwise (· < ·) := by decide
    refine order.sublist (List.Sublist.cons_cons 0 ?_)
    exact (List.take_sublist n ownedQueue).map _

/-- A job waits on a queue with an owner. -/
theorem live_jobs_of_owned_queues_descend_member :
    ∃ s : System, System.Reachable .digits anyCall s ∧ Descends .digits anyCall 7 s 2 := by
  have played : (System.calls (ownedQueue.take 3) (.installed .digits 0)).toOption.any (fun s =>
      (s.db.jobs.get? 2).any fun job => job.status.active && s.db.admissionOwner job.queue = some 7) = true := by
    decide +kernel
  obtain ⟨s, reachable, there⟩ := ownedQueue_run played
  obtain ⟨job, stored, good⟩ := (Option.any_eq_true _ _).mp there
  rw [Bool.and_eq_true, decide_eq_true_eq] at good
  exact ⟨s, reachable, live_jobs_of_owned_queues_descend reachable stored good.1 good.2⟩

/-- The owner of a queue changes only by a call of an operator, when no job of the queue is live, no reservation is open
and no active schedule targets it; and once it has one the queue is never without an owner. -/
theorem owners_change_at_rest {name : String} (step : System.Step site env command s t)
    (changed : t.db.admissionOwner name ≠ s.db.admissionOwner name) :
    env.operator = true ∧ (t.db.admissionOwner name).isSome = true ∧
    (∀ id job, s.db.jobs.get? id = some job → job.queue = name → job.status.active = false) ∧
    (∀ id a, s.db.admissions.get? id = some a → a.queue = name → a.state ≠ .reserved) ∧
    ∀ id r, s.db.scheduling.schedules.get? id = some r → targetsQueue name r.toScheduleRow = true → r.state ≠ .active := by
  cases assigns : command.assignsOwner with
  | false => exact absurd (congrFun (Command.exec_owners step.exec assigns) name) changed
  | true =>
    obtain ⟨other, role, q, handover⟩ := Command.exec_handover step.exec assigns
    rw [handover.owner] at changed ⊢
    split_ifs at changed ⊢ with own
    · subst own
      refine ⟨handover.operator, rfl, ?_, ?_, handover.idle⟩
      · intro id job here queue
        obtain ⟨-, empty, -⟩ | ⟨-, ended, -⟩ := handover.quiet
        · exact absurd queue (empty id job here)
        · exact ended id job here queue
      · intro id a here queue
        obtain ⟨-, -, free⟩ | ⟨-, -, settled⟩ := handover.quiet
        · exact absurd queue (free id a here)
        · exact settled id a here queue
    · exact absurd rfl changed

/-- The first owner of a queue. -/
theorem owners_change_at_rest_first : ∃ s t : System, s.db.admissionOwner "q" = none ∧
    (t.db.admissionOwner "q").isSome = true ∧ ∀ id job, s.db.jobs.get? id = some job → job.queue = "q" →
      job.status.active = false := by
  have played : (System.calls (ownedQueue.take 1) (.installed .digits 0)).toOption.any (fun s => s.xid = 1 &&
      s.db.admissionOwner "q" = none &&
      (Command.exec (ownerEnv 2) (.bindQueueAdmissionOwner "q" (some "r")) s.db).toOption.any fun db =>
        (db.admissionOwner "q").isSome) = true := by
    decide +kernel
  obtain ⟨s, -, there⟩ := ownedQueue_run played
  rw [Bool.and_eq_true, Bool.and_eq_true, decide_eq_true_eq, decide_eq_true_eq] at there
  obtain ⟨⟨last, unowned⟩, bound⟩ := there
  obtain ⟨db, run, owned⟩ := (Option.any_eq_true _ _).mp bound
  have step : System.Step .digits (ownerEnv 2) (.bindQueueAdmissionOwner "q" (some "r")) s _ :=
    .commit rfl (by rw [last]; exact Nat.lt_succ_self 1) (toOption_eq_some.mp run)
  have changed : db.admissionOwner "q" ≠ s.db.admissionOwner "q" := by
    rw [unowned]
    exact Option.isSome_iff_ne_none.mp owned
  obtain ⟨-, some', ended, -⟩ := owners_change_at_rest step changed
  exact ⟨s, _, unowned, some', ended⟩

/-- A queue that has an owner keeps having one, and a job that is over on it stays over, whatever is called later. -/
theorem ended_jobs_of_owned_queues_rest {was : Job} (reachable : System.Reachable site allowed s)
    (stored : s.db.jobs.get? id = some was) (ended : was.status.terminal = true)
    (owned : (s.db.admissionOwner was.queue).isSome = true) (run : System.Run site allowed s t) :
    (t.db.admissionOwner was.queue).isSome = true ∧
      ∀ job, t.db.jobs.get? id = some job → job.status.terminal = true ∧ job.queue = was.queue := by
  have minted := reachable.minted.jobs id (by simp [stored])
  refine (run.induction (I := fun t => System.Reachable site allowed t ∧ s.db.nextUuid ≤ t.db.nextUuid ∧
    (t.db.admissionOwner was.queue).isSome = true ∧ ∀ job, t.db.jobs.get? id = some job →
      job.status.terminal = true ∧ job.queue = was.queue) ⟨reachable, le_rfl, owned, ?_⟩ ?_).2.2
  · intro job here
    cases stored.symm.trans here
    exact ⟨ended, rfl⟩
  · intro t u env command before permitted step
    obtain ⟨reached, above, owns, rests⟩ := before
    obtain ⟨F, -, steps⟩ := step.steps
    refine ⟨reached.extend (.step .start permitted step), above.trans steps.nextUuid_le, Command.exec_owned step.exec owns, ?_⟩
    intro job here
    obtain ⟨old, there, kept, -⟩ := Command.exec_law step.exec (minted.trans_le above) here
    obtain ⟨ended', queue⟩ := rests old there
    have same : job.queue = old.queue := congrArg Identity.queue kept
    exact ⟨Command.exec_over step.exec reached.minted there ended' (by rw [queue]; exact owns) here, same.trans queue⟩

/-- A job was cancelled on an owned queue. -/
theorem ended_jobs_of_owned_queues_rest_cancelled : ∃ (s : System) (was : Job), s.db.jobs.get? 3 = some was ∧
    ∀ t : System, System.Run .digits anyCall s t → ∀ job, t.db.jobs.get? 3 = some job → job.status.terminal = true := by
  have played : (System.calls (ownedQueue.take 5) (.installed .digits 0)).toOption.any (fun s =>
      (s.db.jobs.get? 3).any fun job => job.status.terminal && (s.db.admissionOwner job.queue).isSome) = true := by
    decide +kernel
  obtain ⟨s, reachable, there⟩ := ownedQueue_run played
  obtain ⟨was, stored, good⟩ := (Option.any_eq_true _ _).mp there
  rw [Bool.and_eq_true] at good
  refine ⟨s, was, stored, ?_⟩
  intro t run job here
  exact ((ended_jobs_of_owned_queues_rest reachable stored good.1 good.2 run).2 job here).1

/-- In every reachable state each schedule has the owner that the queue of its target has, and the maintenance schedule
has none. -/
theorem schedules_have_owners_of_targets (reachable : System.Reachable site allowed s) {schedule : Schedule}
    (stored : s.db.scheduling.schedules.get? id = some schedule) :
    schedule.admissionOwnerOid = if schedule.target.fieldText? "kind" = some "job" then
      (schedule.target.fieldText? "queue").bind s.db.admissionOwner else none :=
  reachable.schedulesOwned.owned id schedule stored

/-- A schedule that targets a queue with an owner. -/
theorem schedules_have_owners_of_targets_owned : ∃ (s : System) (schedule : Schedule),
    s.db.scheduling.schedules.get? 4 = some schedule ∧ schedule.admissionOwnerOid = some 7 := by
  have played : (System.calls (ownedQueue.take 6) (.installed .digits 0)).toOption.any (fun s =>
      (s.db.scheduling.schedules.get? 4).any fun r => r.target.fieldText? "kind" = some "job" &&
        (r.target.fieldText? "queue").bind s.db.admissionOwner = some 7) = true := by
    decide +kernel
  obtain ⟨s, reachable, there⟩ := ownedQueue_run played
  obtain ⟨schedule, stored, good⟩ := (Option.any_eq_true _ _).mp there
  rw [Bool.and_eq_true, decide_eq_true_eq, decide_eq_true_eq] at good
  have owner := schedules_have_owners_of_targets reachable stored
  rw [if_pos good.1, good.2] at owner
  exact ⟨s, schedule, stored, owner⟩

end Runs

end Taskq
