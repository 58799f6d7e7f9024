import Taskq.Invariants.Admitted
import Taskq.Library.Inserts

/-! The children of a completion: what each has of its spec and of its parent, and that no other job of the same parent
and step was ever admitted. -/
namespace Taskq
open Relational

variable {env : Env} {db db' : Db} {parentId jobId attemptId : Uuid} {parent job : Job} {spec : Jsonb} {specs : List Jsonb}

section Fields

/-- The number under a key of a spec, or the default when the key is missing. -/
def GivenNumber (spec : Jsonb) (key : String) (default n : ℤ) : Prop :=
  spec.field? key = some (.ofInt n) ∨ spec.field? key = none ∧ n = default

/-- The instant whose text is under a key of a spec, or the default when the key is missing. -/
def GivenTime (env : Env) (spec : Jsonb) (key : String) (default t : Time) : Prop :=
  (∃ text, spec.field? key = some (.str text) ∧ env.parseTime text = some t) ∨ spec.field? key = none ∧ t = default

/-- A job that continues its parent as a spec says. -/
structure ContinuationOf (env : Env) (queues : Table String Queue) (parentId : Uuid) (parent : JobRow) (spec : Jsonb)
    (child : JobRow) : Prop where
  status : child.status = .queued
  descends : child.parentJobId = some parentId
  key : child.idempotencyKey = some (chainPrefix parentId ++ stepOf spec)
  queue : child.queue = (spec.fieldText? "queue").getD parent.queue
  jobType : spec.fieldText? "job_type" = some child.jobType
  payload : child.payload = (spec.field? "payload").getD (.obj [])
  headers : child.headers = some ((spec.field? "headers").getD (.obj []))
  defaults : ∃ q, queues.get? child.queue = some q ∧ GivenNumber spec "priority" q.defaultPriority child.priority ∧
    GivenNumber spec "max_attempts" q.defaultMaxAttempts child.maxAttempts ∧
    GivenNumber spec "lease_seconds" q.defaultLeaseSeconds child.leaseSeconds
  scheduled : GivenTime env spec "scheduled_at" env.now child.scheduledAt
  member : isMember spec = true → parent.workflowId.isSome = true ∧ parent.continuationPolicyHash.isSome = true ∧
    child.workflowId = parent.workflowId ∧ child.stepKey = some (continuationPrefix parentId ++ stepOf spec) ∧
    child.continuationPolicyHash = parent.continuationPolicyHash ∧ child.flowKey = parent.flowKey
  detached : isMember spec = false → child.workflowId = none ∧ child.stepKey = none ∧
    child.continuationPolicyHash = none ∧ child.flowKey = none

theorem ContinuationOf.of_identity {queues : Table String Queue} {old new child : JobRow}
    (continues : ContinuationOf env queues parentId old spec child) (same : old.identity = new.identity) :
    ContinuationOf env queues parentId new spec child := by
  have queue : old.queue = new.queue := congrArg Identity.queue same
  have workflow : old.workflowId = new.workflowId := congrArg Identity.workflowId same
  have policy : old.continuationPolicyHash = new.continuationPolicyHash := congrArg Identity.continuationPolicyHash same
  have flow : old.flowKey = new.flowKey := congrArg Identity.flowKey same
  refine { continues with queue := queue ▸ continues.queue, member := fun joins => ?_ }
  rw [← workflow, ← policy, ← flow]
  exact continues.member joins

theorem intField_given {key : String} {cast : ℤ → Call ℤ} {e : SqlError} {value : Option ℤ} {default : ℤ}
    (exact' : ∀ n i, cast n = .ok i → i = n) (run : intField spec key cast e = .ok value) :
    GivenNumber spec key default (value.getD default) := by
  unfold intField at run
  split at run
  · rename_i missing
    cases run
    exact .inr ⟨missing, rfl⟩
  · rename_i n here
    split_ifs at run with whole
    split at run
    · rename_i i casts
      cases run
      cases exact' _ _ casts
      refine .inl (here.trans ?_)
      obtain ⟨unscaled, scale⟩ := n
      cases whole
      rfl
    · cases run
  · cases run

theorem timeField_given {key : String} {e : SqlError} {value : Option Time} {default : Time}
    (run : timeField env spec key e = .ok value) : GivenTime env spec key default (value.getD default) := by
  unfold timeField at run
  split at run
  · rename_i missing
    cases run
    exact .inr ⟨missing, rfl⟩
  · rename_i text here
    split at run
    · rename_i t parses
      cases run
      exact .inl ⟨text, here, parses⟩
    · cases run
  · cases run

/-- The row that a followup gets is that of a continuation. -/
theorem FollowupRow.continuation {index : ℤ} {row : JobRow}
    (shape : FollowupRow env parentId parent.toJobRow spec index db row) :
    ContinuationOf env db.queues parentId parent.toJobRow spec row := by
  obtain ⟨f, q, parse, known, checked, rfl⟩ := shape.parsed
  obtain ⟨-, step, joins⟩ := parseFollowup_eq_ok parse
  simp only [parseFollowup, seq_eq_ok, ensure_eq_ok] at parse
  obtain ⟨-, -, -, ⟨typed, -⟩, -, -, -, -, priority, p, attempts, m, lease, l, at', t, -, -, finish⟩ := parse
  cases finish
  refine { status := rfl, descends := rfl, key := congrArg (fun s => some (chainPrefix parentId ++ s)) step, queue := rfl,
           jobType := ?_, payload := rfl, headers := rfl, defaults := ⟨q, known, ?_, ?_, ?_⟩, scheduled := ?_,
           member := fun member => ?_, detached := fun plain => ?_ }
  · cases here : spec.fieldText? "job_type" with
    | none => exact absurd (by rw [here]; rfl) typed
    | some text => rfl
  · exact intField_given (fun n i h => (int2_eq_ok.mp h).2.symm) p
  · exact intField_given (fun n i h => (int2_eq_ok.mp h).2.symm) m
  · exact intField_given (fun n i h => (int4_eq_ok.mp h).2.symm) l
  · exact timeField_given t
  · have joined : spec.hasKey memberKey = true := member
    have check := checked joined
    unfold checkMemberFollowup at check
    split at check
    · rename_i w policy workflow hash
      exact ⟨by rw [workflow]; rfl, by rw [hash]; rfl, if_pos joined, if_pos joined, if_pos joined, if_pos joined⟩
    · cases check
  · have alone : spec.hasKey memberKey = false := plain
    simp [Followup.row, alone]

end Fields

section Completion

/-- A followup whose key is free comes in as one new row. -/
theorem FollowupInserted.inserts {row : JobRow} {answer : Uuid × Bool} {key : String}
    (inserted : FollowupInserted env row db answer db') (keyed : row.idempotencyKey = some key)
    (free : ∀ id job, db.jobs.get? id = some job → job.idempotencyKey ≠ some key) :
    ∃ (id : Uuid) (child : Job), db.jobs.get? id = none ∧ child.toJobRow = row ∧ db'.jobs = db.jobs.put id child ∧
      db'.queues = db.queues := by
  cases inserted with
  | held holder =>
    obtain ⟨stored, -, same, -⟩ := keyHolder_eq_some holder
    rw [keyed] at same
    exact absurd same (free _ _ stored)
  | @created n made _ events notices run after =>
    subst after
    obtain ⟨new, counts, counters, same, -, -, fresh, -, -, rfl⟩ := insertJob_frame run
    exact ⟨_, new, fresh, same, rfl, rfl⟩

theorem enqueueFollowups_inserts {queue : String} {index : ℤ} {queues : Table String Queue}
    (run : enqueueFollowups env parentId queue specs index db = .ok db') (stored : db.jobs.get? parentId = some parent)
    (distinct : (specs.map stepOf).Nodup) (free : StepsFree db parentId specs) (same : db.queues = queues) :
    Table.Inserts (fun spec (child : Job) => ContinuationOf env queues parentId parent.toJobRow spec child.toJobRow) specs
      db.jobs db'.jobs := by
  induction specs generalizing db index with
  | nil =>
    cases run
    exact .nil _
  | cons spec specs ih =>
    simp only [enqueueFollowups, seq_eq_ok] at run
    obtain ⟨⟨answer, mid⟩, first, rest⟩ := run
    obtain ⟨row, shape, inserted⟩ := enqueueFollowup_inserted first stored
    have continues := shape.continuation
    obtain ⟨fresh, distinct'⟩ := List.nodup_cons.mp distinct
    obtain ⟨id, child, new, made, jobs, queues'⟩ := inserted.inserts continues.key (free spec (by simp))
    have stored' : mid.jobs.get? parentId = some parent := by
      have other : parentId ≠ id := by
        rintro rfl
        cases stored.symm.trans new
      rw [jobs, Table.get?_put_of_ne _ _ other, stored]
    have free' : StepsFree mid parentId specs := by
      intro other there j job here own
      rw [jobs, Table.get?_put] at here
      split_ifs at here
      · cases here
        rw [made, continues.key] at own
        obtain ⟨-, steps⟩ := chainPrefix_inj (Option.some.inj own)
        exact fresh (List.mem_map.mpr ⟨other, there, steps.symm⟩)
      · exact free other (by simp [there]) j job here own
    have rest := ih rest stored' distinct' free' (queues'.trans same)
    rw [jobs] at rest
    exact .cons new (by rw [made, ← same]; exact continues) rest

/-- What a completion leaves behind: its job has succeeded, and for each spec there is one child. -/
structure Completed (env : Env) (jobId : Uuid) (job : Job) (specs : List Jsonb) (db db' : Db) : Prop where
  settled : ∃ row, db'.jobs.get? jobId = some row ∧ row.status = .succeeded ∧ row.identity = job.identity
  child : ∀ spec ∈ specs, ∃ (id : Uuid) (child : Job), db.jobs.get? id = none ∧ db'.jobs.get? id = some child ∧
    ContinuationOf env db.queues jobId job.toJobRow spec child.toJobRow ∧
    ∀ other child', db'.jobs.get? other = some child' →
      child'.idempotencyKey = some (chainPrefix jobId ++ stepOf spec) → other = id
  only : ∀ id child, db.jobs.get? id = none → db'.jobs.get? id = some child →
    ∃ spec ∈ specs, ContinuationOf env db.queues jobId job.toJobRow spec child.toJobRow

theorem CompletionRun.completed (run : CompletionRun env jobId job specs db db')
    (free : ∀ step id other, db.jobs.get? id = some other → other.idempotencyKey ≠ some (chainPrefix jobId ++ step)) :
    Completed env jobId job specs db db' := by
  obtain ⟨taken, settle, follow, kept, continues, distinct⟩ := run
  rename_i reserved mid settled
  have reserve := reserveFollowups_path env taken
  have quiet : Path env ({l | ∃ w, l = .reserve w} ∪ (changesOf jobId [.succeed] ∪ promotions)) db mid :=
    (reserve.mono Set.subset_union_left).trans (settle.mono Set.subset_union_right)
  have queues : mid.queues = db.queues := quiet.kept.2.1
  have old {id : Uuid} {row : Job} (here : mid.jobs.get? id = some row) :
      ∃ was, db.jobs.get? id = some was ∧ row.identity = was.identity :=
    quiet.steps.job id (C := fun i j => j.identity = i.identity) (fun _ => rfl)
      (fun first second => second.trans first) (by simp [changesOf, promotions]) (fun _ kept _ => kept) here
  have absent {id : Uuid} : db.jobs.get? id = none ↔ mid.jobs.get? id = none := by
    constructor
    · exact quiet.steps.absent (by simp [changesOf, promotions])
    · intro gone
      by_contra here
      exact quiet.steps.present (by simp [changesOf, promotions]) here gone
  have unkeyed (step : String) {id : Uuid} {row : Job} (here : mid.jobs.get? id = some row) :
      row.idempotencyKey ≠ some (chainPrefix jobId ++ step) := by
    obtain ⟨was, there, same⟩ := old here
    rw [show row.idempotencyKey = was.idempotencyKey from congrArg Identity.idempotencyKey same]
    exact free step id was there
  have inserts := enqueueFollowups_inserts follow continues.stored distinct (fun spec _ _ _ here => unkeyed (stepOf spec) here)
    queues
  have marked {spec : Jsonb} {child : Job}
      (made : ContinuationOf env db.queues jobId settled.toJobRow spec child.toJobRow) :
      child.idempotencyKey = some (chainPrefix jobId ++ stepOf spec) := made.key
  have keys : (specs.map fun spec => some (chainPrefix jobId ++ stepOf spec)).Nodup := by
    have through : (specs.map fun spec => some (chainPrefix jobId ++ stepOf spec)) =
        (specs.map stepOf).map fun step => some (chainPrefix jobId ++ step) := by simp
    rw [through]
    exact distinct.map fun _ _ same => (chainPrefix_inj (Option.some.inj same)).2
  refine ⟨⟨settled, inserts.kept continues.stored, continues.succeeded, kept⟩, fun spec member => ?_,
    fun id child gone here => ?_⟩
  · obtain ⟨id, child, gone, here, made⟩ := inserts.served member
    refine ⟨id, child, absent.mpr gone, here, made.of_identity kept, fun other child' here' keyed => ?_⟩
    have gone' : mid.jobs.get? other = none := by
      cases there : mid.jobs.get? other with
      | none => rfl
      | some row =>
        cases here'.symm.trans (inserts.kept there)
        exact absurd keyed (unkeyed (stepOf spec) there)
    let mark (j : Job) : Option String := j.idempotencyKey
    have same : mark child' = mark child := keyed.trans (marked made).symm
    exact inserts.once marked keys here' gone' here gone same
  · obtain ⟨spec, member, made⟩ := inserts.origin here (absent.mp gone)
    exact ⟨spec, member, made.of_identity kept⟩

/-- What a call that settles its job as succeeded leaves behind, and that others leave nothing. -/
theorem Completes.completed {answer : SettleResult} (completes : Completes env jobId attemptId specs db db' answer)
    (chains : ChainsSettled db.nextUuid db.toCore) :
    (runningJob db.toCore jobId attemptId = none ∧ db' = db ∧
      answer.outcome ∈ [SettleOutcome.lost, .alreadySettled, .settleConflict]) ∨
    ∃ job, runningJob db.toCore jobId attemptId = some job ∧ Completed env jobId job specs db db' ∧
      answer = ⟨.ok, some .succeeded, none⟩ := by
  obtain ⟨idle, same, rfl | rfl⟩ | ⟨job, held, run, answered⟩ := completes
  · exact .inl ⟨idle, same, by simp⟩
  · refine .inl ⟨idle, same, ?_⟩
    unfold replayAnswer
    split
    · simp
    · split_ifs <;> simp
  · obtain ⟨stored, running, -⟩ := runningJob_eq_some.mp held
    refine .inr ⟨job, held, run.completed fun step id other there keyed => ?_, answered⟩
    have settled := (chains id other jobId step there keyed).2 job stored
    cases running.symm.trans settled

end Completion

section Ever

variable {site : Site} {allowed : System → Env → Command → Prop} {s t u : System} {command : Command} {name : String}

theorem length_le_one {α : Type} {l : List α} (distinct : l.Nodup) (same : ∀ a ∈ l, ∀ b ∈ l, a = b) : l.length ≤ 1 := by
  cases l with
  | nil => exact Nat.zero_le 1
  | cons a l =>
    cases l with
    | nil => exact le_rfl
    | cons b l =>
      obtain rfl := same a (by simp) b (by simp)
      simp at distinct

/-- The jobs that were ever admitted as the continuation of a parent under a step. -/
def System.childrenEver (s : System) (parentId : Uuid) (name : String) : List (Uuid × Job) :=
  s.admitted.filter fun e => e.2.idempotencyKey = some (chainPrefix parentId ++ name)

/-- There was at most one such job, and its parent has succeeded. -/
structure ChildrenOnce (s : System) (parentId : Uuid) (name : String) : Prop where
  once : (s.childrenEver parentId name).length ≤ 1
  settled : s.childrenEver parentId name ≠ [] → parentId < s.db.nextUuid ∧
    ∀ row, s.db.jobs.get? parentId = some row → row.status = .succeeded

theorem Command.exec_completed (run : command.exec env db = .ok db') (chains : ChainsSettled db.nextUuid db.toCore)
    (completes : command.completes = some jobId) : db' = db ∨ ∃ job specs, Completed env jobId job specs db db' := by
  have outcome {attemptId : Uuid} {specs : List Jsonb} {answer : SettleResult}
      (outcome : Completes env jobId attemptId specs db db' answer) : db' = db ∨ ∃ job specs, Completed env jobId job specs db db' := by
    obtain ⟨-, same, -⟩ | ⟨job, -, completed, -⟩ := outcome.completed chains
    · exact .inl same
    · exact .inr ⟨job, specs, completed⟩
  cases command with
  | completeJob =>
    cases completes
    obtain ⟨answer, run⟩ := map_snd_eq_ok.mp run
    exact outcome (completeJob_completes run)
  | completeJobWithPolicy =>
    cases completes
    obtain ⟨answer, run⟩ := map_snd_eq_ok.mp run
    exact outcome (completeJobWithPolicy_completes run)
  | _ => cases completes

/-- A new continuation comes from the call that completes its parent, which was running until then. -/
theorem Command.exec_continues (run : command.exec env db = .ok db') {id : Uuid} {child : Job}
    (absent : db.jobs.get? id = none) (here : db'.jobs.get? id = some child)
    (keyed : child.idempotencyKey = some (chainPrefix parentId ++ name)) :
    command.completes = some parentId ∧ ∃ job, db.jobs.get? parentId = some job ∧ job.status = .running := by
  obtain ⟨F, used, steps⟩ := Command.exec_steps run
  obtain ⟨who, e, entered⟩ := steps.entered absent here
  obtain ⟨row, entry, same⟩ := entered.entry
  obtain ⟨named, -⟩ := Command.footprints_parent used entered.labelled
  have key : row.idempotencyKey = some (chainPrefix parentId ++ name) :=
    (congrArg Identity.idempotencyKey same).symm.trans keyed
  cases entry with
  | producer reserved =>
    rw [key, chainPrefix_reserved] at reserved
    cases reserved
  | continuation _ _ _ _ key' =>
    obtain ⟨rfl, -⟩ := chainPrefix_inj (Option.some.inj (key.symm.trans key'))
    obtain rfl | running := Command.exec_completes run named.symm
    · cases absent.symm.trans here
    · exact ⟨named.symm, running⟩

theorem ChildrenOnce.step (once : ChildrenOnce t parentId name) (reachable : System.Reachable site allowed t)
    (permitted : allowed t env command) (next : System.Step site env command t u) : ChildrenOnce u parentId name := by
  have reached : System.Reachable site allowed u := reachable.extend (.step .start permitted next)
  obtain ⟨F, used, steps⟩ := Command.exec_steps next.exec
  have grown : u.childrenEver parentId name = t.childrenEver parentId name ++
      (newJobs t.db u.db).filter fun e => e.2.idempotencyKey = some (chainPrefix parentId ++ name) := by
    cases next with
    | commit => exact List.filter_append ..
  have new {e : Uuid × Job} (member : e ∈ (newJobs t.db u.db).filter fun e =>
      e.2.idempotencyKey = some (chainPrefix parentId ++ name)) : t.db.jobs.get? e.1 = none ∧
        u.db.jobs.get? e.1 = some e.2 ∧ e.2.idempotencyKey = some (chainPrefix parentId ++ name) := by
    obtain ⟨member, keyed⟩ := List.mem_filter.mp member
    obtain ⟨here, absent⟩ := Table.mem_select.mp (show (e.1, e.2) ∈ newJobs t.db u.db from member)
    exact ⟨Option.isNone_iff_eq_none.mp absent, here, of_decide_eq_true keyed⟩
  by_cases none' : ((newJobs t.db u.db).filter fun e => e.2.idempotencyKey = some (chainPrefix parentId ++ name)) = []
  · rw [none', List.append_nil] at grown
    refine ⟨grown ▸ once.once, fun some' => ?_⟩
    obtain ⟨below, settled⟩ := once.settled (grown ▸ some')
    refine ⟨below.trans_le steps.nextUuid_le, fun row here => ?_⟩
    obtain ⟨was, there, stays⟩ := steps.job parentId (C := fun i j => i.status = .succeeded → j.status = .succeeded)
      (fun _ h => h) (fun first second h => second (first h))
      (fun p enters => absurd (Command.footprints_enter used enters) (Nat.not_le.mpr below))
      (fun _ _ step => step.succeeded_stays) here
    exact stays (settled was there)
  · obtain ⟨first, member⟩ := List.exists_mem_of_ne_nil _ none'
    obtain ⟨absent, here, keyed⟩ := new member
    obtain ⟨completes, job, stored, running⟩ := Command.exec_continues next.exec absent here keyed
    have fresh : t.childrenEver parentId name = [] := by
      by_contra some'
      have settled := (once.settled some').2 job stored
      cases running.symm.trans settled
    rw [fresh, List.nil_append] at grown
    constructor
    · obtain same | ⟨_, specs, completed⟩ := Command.exec_completed next.exec reachable.chains completes
      · rw [same] at here
        cases absent.symm.trans here
      · obtain ⟨spec, there, made⟩ := completed.only first.1 first.2 absent here
        have steps := (chainPrefix_inj (Option.some.inj (made.key.symm.trans keyed))).2
        obtain ⟨id, child, -, -, -, unique⟩ := completed.child spec there
        have all {e : Uuid × Job} (member : e ∈ (newJobs t.db u.db).filter fun e =>
            e.2.idempotencyKey = some (chainPrefix parentId ++ name)) : e.1 = id := by
          obtain ⟨-, here', keyed'⟩ := new member
          exact unique e.1 e.2 here' (steps ▸ keyed')
        rw [grown]
        refine length_le_one (((Table.rows_nodup _).filter _).filter _) fun a first b second => ?_
        have same : a.1 = b.1 := (all first).trans (all second).symm
        have stored := (new first).2.1
        rw [same, (new second).2.1] at stored
        exact Prod.ext same (Option.some.inj stored).symm
    · exact fun _ => reached.chains first.1 first.2 parentId name here keyed

end Ever

end Taskq
