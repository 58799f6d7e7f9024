import Taskq.Contract.Lifecycles
import Taskq.Invariants.Outcomes

/-! The status of an ended workflow and the members that it ever had. The counters behind it are of the members that are
stored: retention that deletes one while the workflow still runs takes its ending out of the verdict. -/
namespace Taskq
open Relational

variable {site : Site} {allowed : System → Env → Command → Prop} {s t u : System} {env : Env} {command : Command}
  {db db' : Db} {w id : Uuid} {r : Workflow} {job : Job} {status : JobStatus}

section Members

/-- A call deletes a member of a workflow that still runs. -/
def LosesMember (w : Uuid) (before after : Db) : Prop :=
  ∃ r id job, before.workflows.get? w = some r ∧ r.status = .running ∧ before.jobs.get? id = some job ∧
    job.workflowId = some w ∧ after.jobs.get? id = none

/-- The calls that delete no member of the workflow while it runs. -/
def keepsMembers (w : Uuid) : System → Env → Command → Prop := fun s env command =>
  ∀ db, command.exec env s.db = .ok db → ¬LosesMember w s.db db

/-- The job was a member of the workflow and ended with the status, in a state of a run that leads here. -/
def System.MemberEnded (site : Site) (allowed : System → Env → Command → Prop) (t : System) (w id : Uuid)
    (status : JobStatus) : Prop :=
  status.terminal = true ∧ ∃ s job, System.Reachable site allowed s ∧ System.Run site allowed s t ∧
    s.db.jobs.get? id = some job ∧ job.workflowId = some w ∧ job.status = status

/-- Every member that was ever admitted is stored. -/
def System.AllStored (t : System) (w : Uuid) : Prop :=
  ∀ id job, (id, job) ∈ t.membersEver w → ∃ job', t.db.jobs.get? id = some job' ∧ job'.workflowId = some w

theorem System.MemberEnded.step (ended : t.MemberEnded site allowed w id status) (permitted : allowed t env command)
    (next : System.Step site env command t u) : u.MemberEnded site allowed w id status := by
  obtain ⟨halted, s, job, reachable, run, stored⟩ := ended
  exact ⟨halted, s, job, reachable, .step run permitted next, stored⟩

/-- A member that has ended keeps its status as long as it is stored. -/
theorem Command.exec_ended_stays (run : command.exec env db = .ok db') (minted : Minted db.toCore)
    (stored : db.jobs.get? id = some job) (ended : job.status.terminal = true)
    {job' : Job} (here : db'.jobs.get? id = some job') (member' : job'.workflowId = some w) :
    job'.status = job.status := by
  obtain ⟨F, used, steps⟩ := Command.exec_steps run
  have unchanged (kept : MembersKept db db') : job'.status = job.status := by
    cases stored.symm.trans (kept.2 id job' w here member')
    rfl
  by_cases revives : .change id .redrive ∈ F
  · have redrives := Command.footprints_redrive used revives
    cases command with
    | redriveJob => exact unchanged (redriveJob_membersKept run).1
    | redriveFailed =>
      obtain ⟨answer, run⟩ := map_snd_eq_ok.mp run
      exact unchanged (redriveFailed_membersKept run)
    | _ => exact redrives.elim
  · have old (p : Option Uuid) : Label.enter id p ∉ F := fun enters =>
      absurd (Command.footprints_enter used enters) (Nat.not_le.mpr (minted.jobs id (by simp [stored])))
    obtain ⟨was, there, stays⟩ := steps.job id
      (C := fun i j => i.status.terminal = true → j.status = i.status) (fun _ _ => rfl)
      (fun first second halted => (second (first halted ▸ halted)).trans (first halted)) old
      (fun {k _ _} label _ step halted => step.ended_stays (fun redrive => revives (redrive ▸ label)) halted) here
    cases stored.symm.trans there
    exact stays ended

/-- A call that deletes no member of the workflow leaves all its members stored. -/
theorem System.AllStored.next (all : t.AllStored w) (reachable : System.Reachable site allowed t)
    (permitted : allowed t env command) (keeps : ¬LosesMember w t.db u.db) (next : System.Step site env command t u)
    (going : ∀ r, t.db.workflows.get? w = some r → r.status = .running) : u.AllStored w := by
  intro id job joined
  have parts : (id, job) ∈ t.membersEver w ∨ (id, job) ∈ entered t.db u.db w := by
    cases next with
    | commit =>
      rw [System.membersEver, List.filter_append] at joined
      exact List.mem_append.mp joined
  obtain before | new := parts
  · obtain ⟨job', stored, member⟩ := all id job before
    obtain ⟨r, there⟩ := Option.ne_none_iff_exists'.mp (reachable.sound.members.known id job' w stored member)
    have present : u.db.jobs.get? id ≠ none := fun gone => keeps ⟨r, id, job', there, going r there, stored, member, gone⟩
    obtain ⟨job'', here⟩ := Option.ne_none_iff_exists'.mp present
    have one : System.Run site allowed t u := .step .start permitted next
    obtain ⟨was, before, same⟩ := one.identity (reachable.minted.jobs id (by simp [stored])) here
    cases stored.symm.trans before
    exact ⟨job'', here, (congrArg Identity.workflowId same).trans member⟩
  · obtain ⟨here, -, member⟩ := mem_entered.mp new
    exact ⟨job, here, member⟩

/-- The calls that clean up. -/
def Command.cleansUp : Command → Bool
  | .janitor | .fireSchedule _ => true
  | _ => false

/-- Only a cleanup deletes jobs. -/
theorem Command.footprints_delete {F : Set Label} (used : F ∈ command.footprints env db) (member : .delete id ∈ F) :
    command.cleansUp = true := by
  cases command with
  | janitor | fireSchedule => rfl
  | claimJobs | claimJobsWithPolicies =>
    obtain rfl | rfl := used <;> simp [starts, reclaims, expiries, dependents] at member
  | _ =>
    cases used
    simp [idleLabels, changesOf, dependents, sweeps, revocations, reclaims, expiries, redrives, promotions, creations,
      abandons, withdrawals, finalizations, ticks, admissions, receipts, completions, followups, failing] at member

theorem keepsMembers_of_other (other : command.cleansUp = false) : keepsMembers w s env command := by
  rintro db run ⟨r, id, job, -, -, stored, -, gone⟩
  obtain ⟨F, used, steps⟩ := Command.exec_steps run
  refine steps.present ?_ (by simp [stored]) gone
  intro delete
  simp [Command.footprints_delete used delete] at other

end Members

section Verdicts

/-- While a workflow runs all its members are stored, and one that succeeded had only members that did. -/
structure System.Told (site : Site) (allowed : System → Env → Command → Prop) (t : System) (w : Uuid) : Prop where
  stored : (∀ r, t.db.workflows.get? w = some r → r.status = .running) → t.AllStored w
  succeeded : ∀ r, t.db.workflows.get? w = some r → r.status = .succeeded →
    ∀ id job, (id, job) ∈ t.membersEver w → t.MemberEnded site allowed w id .succeeded

theorem System.Told.step (told : t.Told site (keepsMembers w) w) (reachable : System.Reachable site (keepsMembers w) t)
    (permitted : keepsMembers w t env command) (next : System.Step site env command t u) :
    u.Told site (keepsMembers w) w := by
  have reached : System.Reachable site (keepsMembers w) u := reachable.extend (.step .start permitted next)
  have keeps : ¬LosesMember w t.db u.db := permitted u.db next.exec
  by_cases going : ∀ r, t.db.workflows.get? w = some r → r.status = .running
  · have all := (told.stored going).next reachable permitted keeps next going
    refine ⟨fun _ => all, fun r stored ended id job joined => ⟨rfl, ?_⟩⟩
    obtain ⟨job', here, member⟩ := all id job joined
    have tells := reached.verdicts w r stored (by rw [ended]; decide) id job' here member
    exact ⟨u, job', reached, .start, here, member, tells.succeeded ended⟩
  · push Not at going
    obtain ⟨r, there, halted⟩ := going
    have closed : r.EndsSealed := fun ended => (reachable.closed.ended w r there ended).1
    obtain ⟨r', here, kept⟩ := System.Run.workflow_kept (.step .start permitted next) there closed
    have status : r'.status = r.status := kept.status halted
    constructor
    · intro still
      exact absurd (status.symm.trans (still r' here)) halted
    · intro r'' stored ended id job joined
      cases here.symm.trans stored
      rw [next.joins_ended reachable there halted] at joined
      exact (told.succeeded r there (status.symm.trans ended) id job joined).step permitted next

theorem System.Reachable.told (reachable : System.Reachable site (keepsMembers w) t) : t.Told site (keepsMembers w) w := by
  refine (reachable.induction (I := fun t => System.Reachable site (keepsMembers w) t ∧ t.Told site (keepsMembers w) w)
    (fun now => ⟨⟨now, .start⟩, fun _ _ _ joined => (by cases joined), fun _ stored => (by cases stored)⟩)
    fun {t u env command} ih permitted next => ?_).2
  exact ⟨ih.1.extend (.step .start permitted next), ih.2.step ih.1 permitted next⟩

/-- A member has failed: it is stored while the workflow runs, and then the workflow has failed, unless it was asked to
stop. -/
def System.FailureKept (t : System) (w id : Uuid) : Prop :=
  ∃ r, t.db.workflows.get? w = some r ∧
    (r.status = .running → ∃ job, t.db.jobs.get? id = some job ∧ job.workflowId = some w ∧ job.status = .failed) ∧
    (r.status ≠ .running → r.cancelRequestedAt = none → r.status = .failed)

theorem System.FailureKept.step (kept : t.FailureKept w id) (reachable : System.Reachable site (keepsMembers w) t)
    (permitted : keepsMembers w t env command) (next : System.Step site env command t u) : u.FailureKept w id := by
  have reached : System.Reachable site (keepsMembers w) u := reachable.extend (.step .start permitted next)
  have one : System.Run site (keepsMembers w) t u := .step .start permitted next
  obtain ⟨r, there, going, halted⟩ := kept
  have closed : r.EndsSealed := fun ended => (reachable.closed.ended w r there ended).1
  obtain ⟨r', here, stays⟩ := one.workflow_kept there closed
  refine ⟨r', here, ?_⟩
  by_cases running : r.status = .running
  · obtain ⟨job, stored, member, failed⟩ := going running
    have present : u.db.jobs.get? id ≠ none := fun gone =>
      permitted u.db next.exec ⟨r, id, job, there, running, stored, member, gone⟩
    obtain ⟨job', stored'⟩ := Option.ne_none_iff_exists'.mp present
    obtain ⟨was, before, same⟩ := one.identity (reachable.minted.jobs id (by simp [stored])) stored'
    cases stored.symm.trans before
    have member' : job'.workflowId = some w := (congrArg Identity.workflowId same).trans member
    have failed' : job'.status = .failed := (Command.exec_ended_stays next.exec reachable.minted stored
      (by rw [failed]; rfl) stored' member').trans failed
    refine ⟨fun _ => ⟨job', stored', member', failed'⟩, fun ended unasked => ?_⟩
    exact (reached.verdicts w r' here ended id job' stored' member').failed unasked failed'
  · have status : r'.status = r.status := stays.status running
    refine ⟨fun still => absurd (status.symm.trans still) running, fun _ unasked => status.trans (halted running ?_)⟩
    by_contra asked
    have asked' := stays.asked (Option.isSome_iff_ne_none.mpr asked)
    simp [unasked] at asked'

theorem System.MemberEnded.failureKept (ended : t.MemberEnded site (keepsMembers w) w id .failed) :
    t.FailureKept w id := by
  obtain ⟨-, s, job, reachable, run, stored, member, failed⟩ := ended
  obtain ⟨r, there⟩ := Option.ne_none_iff_exists'.mp (reachable.sound.members.known id job w stored member)
  have first : s.FailureKept w id := ⟨r, there, fun _ => ⟨job, stored, member, failed⟩, fun ended unasked =>
    (reachable.verdicts w r there ended id job stored member).failed unasked failed⟩
  refine (run.induction (I := fun t => System.Reachable site (keepsMembers w) t ∧ t.FailureKept w id) ⟨reachable, first⟩
    fun {t u env command} ih permitted next => ?_).2
  exact ⟨ih.1.extend (.step .start permitted next), ih.2.step ih.1 permitted next⟩

/-- In every run whose calls delete no member of the workflow while it runs: once it has ended and was not asked to stop,
it has failed if any of its members ever failed, and it has succeeded only if every member ever admitted did. -/
theorem workflow_status_truthful (reachable : System.Reachable site (keepsMembers w) t)
    (stored : t.db.workflows.get? w = some r) (ended : r.status ≠ .running) :
    (r.cancelRequestedAt = none → (∃ id, t.MemberEnded site (keepsMembers w) w id .failed) → r.status = .failed) ∧
      (r.status = .succeeded → ∀ id job, (id, job) ∈ t.membersEver w →
        t.MemberEnded site (keepsMembers w) w id .succeeded) := by
  refine ⟨fun unasked failed => ?_, reachable.told.succeeded r stored⟩
  obtain ⟨id, failed⟩ := failed
  obtain ⟨r', there, -, halted⟩ := failed.failureKept
  cases stored.symm.trans there
  exact halted ended unasked

/-- The server of the runs below: it hashes as `Site.hashing` does and reads decimal digits. -/
def Site.hashingDigits : Site := { Site.hashing with parseInt := readDigits }

/-- A workflow whose only member fails, under an hour's retention of failed jobs. -/
def failingMember : List (Time × Command) :=
  [(0, .ensureQueue (some "q") (some (.build [("failed_retention_hours", .ofInt 1)]))),
    (0, .createWorkflow (some "k") (some "batch") (some (.obj [])) (some ["q"]) (some "a")),
    (0, .enqueue { EnqueueArgs.simple "q" with workflowId := some 2, stepKey := some "one" }),
    (0, .claimJobs (.simple "q" 1)), (0, .failJob 3 4 (some "w") (some "boom") (some false) none none none)]

/-- The workflow was not asked to stop and has ended with the status; its member is stored as failed, or not at all. -/
def endedAs (status : WorkflowStatus) (member : Bool) (s : System) : Bool :=
  (s.db.workflows.get? 2).any (fun r => r.status = status && r.cancelRequestedAt = none) &&
    if member then (s.db.jobs.get? 3).any fun job => job.workflowId = some 2 && job.status = .failed
    else (s.db.jobs.get? 3).isNone

/-- A workflow that is sealed after its only member has failed: the law says that it has failed. -/
theorem workflow_status_truthful_failed : ∃ (t : System) (r : Workflow), t.db.workflows.get? 2 = some r ∧
    t.MemberEnded .hashingDigits (keepsMembers 2) 2 3 .failed ∧ r.status = .failed := by
  have played : System.plays .hashingDigits (failingMember ++ [(0, .sealWorkflow 2 (some "a"))])
    (.installed .hashingDigits 0) (endedAs .failed true) = true := by decide +kernel
  obtain ⟨t, run, there⟩ := System.plays_run (keepsMembers 2) played fun u call member => keepsMembers_of_other (by
    simp only [failingMember, List.cons_append, List.nil_append, List.mem_cons, List.not_mem_nil, or_false] at member
    obtain rfl | rfl | rfl | rfl | rfl | rfl := member <;> rfl)
  simp only [endedAs, if_true, Bool.and_eq_true] at there
  obtain ⟨ended, failed⟩ := there
  obtain ⟨r, stored, ended⟩ := (Option.any_eq_true _ _).mp ended
  obtain ⟨job, here, failed⟩ := (Option.any_eq_true _ _).mp failed
  simp only [Bool.and_eq_true, decide_eq_true_eq] at ended failed
  have member : t.MemberEnded .hashingDigits (keepsMembers 2) 2 3 .failed :=
    ⟨rfl, t, job, ⟨0, run⟩, .start, here, failed.1, failed.2⟩
  refine ⟨t, r, stored, member, ?_⟩
  exact (workflow_status_truthful ⟨0, run⟩ stored (by rw [ended.1]; decide)).1 ended.2 ⟨3, member⟩

/-- Retention deletes the failed member of a workflow that is not sealed yet, and the workflow ends as succeeded. -/
theorem workflow_status_untruthful : ∃ (t : System) (r : Workflow), System.Reachable .hashingDigits anyCall t ∧
    t.db.workflows.get? 2 = some r ∧ r.cancelRequestedAt = none ∧ r.status = .succeeded ∧
    t.MemberEnded .hashingDigits anyCall 2 3 .failed := by
  have played : (System.play .hashingDigits failingMember (.installed .hashingDigits 0)).toOption.any (fun s =>
      ((s.db.jobs.get? 3).any fun job => job.workflowId = some 2 && job.status = .failed) &&
      (System.play .hashingDigits [(hours 2, .janitor), (hours 2, .sealWorkflow 2 (some "a"))] s).toOption.any
        (endedAs .succeeded false)) = true := by decide +kernel
  obtain ⟨s, first, there⟩ := (Option.any_eq_true _ _).mp played
  simp only [Bool.and_eq_true] at there
  obtain ⟨failed, there⟩ := there
  obtain ⟨job, here, failed⟩ := (Option.any_eq_true _ _).mp failed
  obtain ⟨t, second, ended⟩ := (Option.any_eq_true _ _).mp there
  simp only [endedAs, Bool.and_eq_true] at ended
  obtain ⟨r, stored, ended⟩ := (Option.any_eq_true _ _).mp ended.1
  simp only [Bool.and_eq_true, decide_eq_true_eq] at ended failed
  have run : System.Run .hashingDigits anyCall (.installed .hashingDigits 0) s :=
    System.play_run (toOption_eq_some.mp first) fun _ _ _ => trivial
  have later : System.Run .hashingDigits anyCall s t :=
    System.play_run (toOption_eq_some.mp second) fun _ _ _ => trivial
  exact ⟨t, r, ⟨0, run.trans later⟩, stored, ended.2, ended.1, rfl, s, job, ⟨0, run⟩, later, here, failed.1, failed.2⟩

end Verdicts

end Taskq
