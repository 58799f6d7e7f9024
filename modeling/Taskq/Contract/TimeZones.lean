import Taskq.Contract.Repetitions

/-! Sessions with different time zones. What was committed from one session is recognised from another one when both
write its instants alike. -/
namespace Taskq
open Relational

section Recognition

/-- The calls that answer a repetition of themselves: a workflow step, several of them, a member followup, and the two
actions on a claimed schedule. -/
inductive Repeatable where
  | step (a : EnqueueArgs)
  | steps (queue : String) (jobs : Option Jsonb)
  | followup (parentId : Uuid) (parentQueue : String) (spec : Jsonb) (index : ℤ)
  | fire (a : FireArgs)
  | error (e : ErrorArgs)

/-- What such a call returns. -/
inductive Reply where
  | job (id : Uuid) (created : Bool)
  | jobs (answers : List (ℤ × Uuid × Bool))
  | action (answer : ActionResult)

/-- A hashed document: the instants in it, and its text under a time zone. -/
structure Hashed where
  times : List Time
  text : TimeZone → String

namespace Repeatable

def run (env : Env) (db : Db) : Repeatable → Call (Reply × Db)
  | .step a => (enqueue env a db).map fun r => (.job r.1.1 r.1.2, r.2)
  | .steps queue jobs => (enqueueMany env queue jobs db).map fun r => (.jobs r.1, r.2)
  | .followup parentId parentQueue spec index =>
    (enqueueFollowup env parentId parentQueue spec index db).map fun r => (.job r.1.1 r.1.2, r.2)
  | .fire a => (fireSchedule env a db).map fun r => (.action r.1, r.2)
  | .error e => (scheduleError env e db).map fun r => (.action r.1, r.2)

/-- The call means the same instants in both sessions. -/
def SameInstants (z₁ z₂ : TimeZone) : Repeatable → Prop
  | .steps _ jobs => ∀ spec ∈ bulkSpecs jobs, SameInstant z₁ z₂ spec
  | .followup _ _ spec _ => SameInstant z₁ z₂ spec
  | .step _ | .fire _ | .error _ => True

/-- The documents in which instants are written under the session's time zone and by whose hashes the call is
recognised. -/
def hashed (env : Env) (db : Db) (z : TimeZone) : Repeatable → List Hashed
  | .step a => [⟨a.scheduledAt.toList, fun z => (a.intent a.deps z.text).text⟩]
  | .steps queue jobs => (bulkSpecs jobs).map fun spec =>
    let a := bulkArgs (env.inZone z) queue spec
    ⟨a.scheduledAt.toList, fun z => (a.intent [] z.text).text⟩
  | .followup parentId parentQueue spec index =>
    match db.jobs.get? parentId, parseFollowup (env.inZone z) parentQueue spec index with
    | some parent, .ok f => (db.queues.get? f.queue).toList.map fun q =>
      ⟨f.scheduledAt.toList, fun z => (f.intent q parentId parent.toJobRow z.text).text⟩
    | _, _ => []
  | .fire a => [⟨a.occurrences ++ [a.nextFireAt], fun z => (a.document z.text).text⟩]
  | .error _ => []

/-- The sessions write every hashed instant alike, or the digests of the different documents collide. -/
def Alike (env : Env) (db : Db) (z₁ z₂ : TimeZone) (c : Repeatable) : Prop :=
  ∀ h ∈ c.hashed env db z₁, (∀ t ∈ h.times, z₁.text t = z₂.text t) ∨
    (h.text z₁ ≠ h.text z₂ ∧ env.sha256 (h.text z₁) = env.sha256 (h.text z₂))

end Repeatable

/-- The call was committed from a session of the time zone, and what it committed is still there: its jobs are stored, its
followup is live, its action is the last one of the schedule. The reply is the one that a repetition should have. -/
inductive Stands (site : Site) (allowed : System → Env → Command → Prop) (z : TimeZone) (u : System) :
    Repeatable → Reply → Prop
  | step {env : Env} {a : EnqueueArgs} {w id : Uuid} {created : Bool} {db : Db} {t : System} (given : a.workflowId = some w)
      (server : env.toSite = site) (reached : System.Reachable site allowed t)
      (run : enqueue (env.inZone z) a db = .ok ((id, created), t.db)) (later : System.Run site allowed t u)
      (still : (u.db.jobs.get? id).isSome = true) : Stands site allowed z u (.step a) (.job id false)
  | steps {env : Env} {queue : String} {jobs : Option Jsonb} {w : Uuid} {answers : List (ℤ × Uuid × Bool)} {db : Db}
      {t : System} (given : ∀ spec ∈ bulkSpecs jobs, (bulkArgs (env.inZone z) queue spec).workflowId = some w)
      (server : env.toSite = site) (reached : System.Reachable site allowed t)
      (run : enqueueMany (env.inZone z) queue jobs db = .ok (answers, t.db)) (later : System.Run site allowed t u)
      (still : ∀ answer ∈ answers, (u.db.jobs.get? answer.2.1).isSome = true) :
      Stands site allowed z u (.steps queue jobs) (.jobs (answers.map fun answer => (answer.1, answer.2.1, false)))
  | followup {env : Env} {parentId id : Uuid} {parentQueue : String} {spec : Jsonb} {index : ℤ} {created : Bool}
      {db after : Db} {job : Job} (member : isMember spec = true) (server : env.toSite = site)
      (run : enqueueFollowup (env.inZone z) parentId parentQueue spec index db = .ok ((id, created), after))
      (still : keyHolder u.db.toCore (followupQueue parentQueue spec) (followupKey parentId spec) = some (id, job)) :
      Stands site allowed z u (.followup parentId parentQueue spec index) (.job id false)
  | fire {env : Env} {a : FireArgs} {answer : ActionResult} {db after : Db} (server : env.toSite = site)
      (run : fireSchedule (env.inZone z) a db = .ok (answer, after)) (landed : answer.outcome ≠ .stale)
      (still : lastAction u.db a.scheduleId = lastAction after a.scheduleId) :
      Stands site allowed z u (.fire a) (.action { answer with replayed := true })
  | error {env : Env} {e : ErrorArgs} {answer : ActionResult} {db after : Db} (server : env.toSite = site)
      (run : scheduleError (env.inZone z) e db = .ok (answer, after)) (landed : answer.outcome ≠ .stale)
      (still : lastAction u.db e.scheduleId = lastAction after e.scheduleId) :
      Stands site allowed z u (.error e) (.action { answer with replayed := true })

variable {site : Site} {allowed : System → Env → Command → Prop} {t u : System} {env env₀ : Env} {z z₁ z₂ : TimeZone}
  {c : Repeatable} {reply : Reply} {w : Uuid} {key : Option String} {id : Uuid} {queue : String} {specs : List Jsonb}

theorem hash_iff {P : Prop} {x y : String} {digest : String → String} (written : x = y ↔ P) :
    digest x = digest y ↔ P ∨ (x ≠ y ∧ digest x = digest y) := by
  rw [← written]
  by_cases same : x = y
  · simp [same]
  · simp [same]

/-- A step that had its job has it as long as the job is stored. -/
theorem HasStep.later (has : HasStep t.db w key id) (reached : System.Reachable site allowed t)
    (later : System.Run site allowed t u) (still : (u.db.jobs.get? id).isSome = true) :
    ∃ job, stepHolder u.db.toCore w key = some (id, job) := by
  obtain ⟨was, there, member, step⟩ := has
  obtain ⟨job, here⟩ := Option.isSome_iff_exists.mp still
  obtain ⟨was', there', kept⟩ := later.identity (reached.minted.jobs id (by simp [there])) here
  cases there.symm.trans there'
  have workflow : job.workflowId = was.workflowId := congrArg Identity.workflowId kept
  have own : job.stepKey = was.stepKey := congrArg Identity.stepKey kept
  exact ⟨job, (reached.extend later).stepsUnique.holder here (workflow.trans member) (own.trans step)⟩

theorem bulkArgs_site (same : env₀.toSite = env.toSite) (z : TimeZone) (queue : String) :
    bulkArgs (env₀.inZone z) queue = bulkArgs (env.inZone z) queue := by
  cases env₀
  cases env
  cases same
  rfl

/-- What is said of the indexes and the arguments of the slots does not depend on the ids drawn. -/
theorem forall₂_bulkSlots {β : Type} {R : ℤ → EnqueueArgs → β → Prop} {index : ℤ} {next next' : Uuid} {bs : List β}
    (args : bulkArgs env₀ queue = bulkArgs env queue)
    (all : List.Forall₂ (fun slot b => R slot.index slot.args b) (bulkSlots env₀ queue specs index next) bs) :
    List.Forall₂ (fun slot b => R slot.index slot.args b) (bulkSlots env queue specs index next') bs := by
  induction specs generalizing index next next' bs with
  | nil =>
    cases all
    exact .nil
  | cons spec specs ih =>
    cases all with
    | cons head tail => exact .cons (args ▸ head) (ih tail)

theorem heldAnswer_eq {slots : List BulkSlot} {db : Db} {answers : List (ℤ × Uuid × Bool)}
    (all : List.Forall₂ (fun slot answer => answer.1 = slot.index ∧
      ∃ job, stepHolder db.toCore w slot.args.stepKey = some (answer.2.1, job)) slots answers) :
    heldAnswer db w slots = answers.map fun answer => (answer.1, answer.2.1, false) := by
  unfold heldAnswer
  induction all with
  | nil => rfl
  | cons head _ ih =>
    obtain ⟨index, job, there⟩ := head
    rw [List.map_cons, List.filterMap_cons, BulkSlot.answered, there, ih, List.map_cons, index]
    rfl

theorem map_injective_eq_ok {α β : Type} {f : α → β} {call : Call α} (inj : Function.Injective f) (value : α) :
    call.map f = .ok (f value) ↔ call = .ok value := by
  refine map_eq_ok.trans ⟨?_, fun run => ⟨value, run, rfl⟩⟩
  rintro ⟨value', run, same⟩
  rwa [← inj same]

theorem job_injective : Function.Injective fun r : (Uuid × Bool) × Db => (Reply.job r.1.1 r.1.2, r.2) := by
  rintro ⟨⟨_, _⟩, _⟩ ⟨⟨_, _⟩, _⟩ same
  cases same
  rfl

theorem jobs_injective : Function.Injective fun r : List (ℤ × Uuid × Bool) × Db => (Reply.jobs r.1, r.2) := by
  rintro ⟨_, _⟩ ⟨_, _⟩ same
  cases same
  rfl

theorem action_injective : Function.Injective fun r : ActionResult × Db => (Reply.action r.1, r.2) := by
  rintro ⟨_, _⟩ ⟨_, _⟩ same
  cases same
  rfl

/-- A repetition from another session of what was committed from a session and is still there is recognised, with the
answer that the first session gets, exactly when the two sessions write every hashed instant alike, or the digests
collide. -/
theorem repetition_recognised (reachable : System.Reachable site allowed u) (stands : Stands site allowed z₁ u c reply)
    (same : c.SameInstants z₁ z₂) (server : env.toSite = site) (accepted : ∃ r, c.run (env.inZone z₁) u.db = .ok r) :
    ∃ db, c.run (env.inZone z₁) u.db = .ok (reply, db) ∧
      (c.run (env.inZone z₂) u.db = .ok (reply, db) ↔ c.Alike env u.db z₁ z₂) := by
  obtain ⟨r, accepted⟩ := accepted
  cases stands with
  | @step env₀ a w id created db t given _ reached run later still =>
    obtain ⟨job, there⟩ := (enqueue_hasStep given run).later reached later still
    obtain ⟨result, again, rfl⟩ := map_eq_ok.mp accepted
    obtain ⟨rfl, zones⟩ := enqueue_zones z₂ given there again
    refine ⟨u.db, accepted, (map_injective_eq_ok job_injective ((id, false), u.db)).trans (zones.trans ?_)⟩
    rw [hash_iff EnqueueArgs.intent_text]
    simp [Repeatable.Alike, Repeatable.hashed]
  | @steps env₀ queue jobs w answers db t given home reached run later still =>
    have args := bulkArgs_site (home.trans server.symm) z₁ queue
    have steps := enqueueMany_hasSteps given run
    have holders : List.Forall₂ (fun (slot : BulkSlot) (answer : ℤ × Uuid × Bool) => answer.1 = slot.index ∧
        ∃ job, stepHolder u.db.toCore w slot.args.stepKey = some (answer.2.1, job))
        (bulkSlots (env.inZone z₁) queue (bulkSpecs jobs) 1 u.db.nextUuid) answers := by
      have before : List.Forall₂ (fun (slot : BulkSlot) (answer : ℤ × Uuid × Bool) => answer.1 = slot.index ∧
          ∃ job, stepHolder u.db.toCore w slot.args.stepKey = some (answer.2.1, job))
          (bulkSlots (env₀.inZone z₁) queue (bulkSpecs jobs) 1 db.nextUuid) answers := by
        refine ((List.forall₂_and_left _ _).mpr ⟨still, steps.flip⟩).flip.imp ?_
        rintro slot answer ⟨there, index, has⟩
        exact ⟨index, has.later reached later there⟩
      exact forall₂_bulkSlots (R := fun (index : ℤ) (args : EnqueueArgs) (answer : ℤ × Uuid × Bool) =>
        answer.1 = index ∧ ∃ job, stepHolder u.db.toCore w args.stepKey = some (answer.2.1, job)) args before
    have named : ∀ slot ∈ bulkSlots (env.inZone z₁) queue (bulkSpecs jobs) 1 u.db.nextUuid, slot.args.workflowId = some w :=
      (mem_bulkSlots fun args => args.workflowId = some w).mpr (args ▸ given)
    have held : ∀ slot ∈ bulkSlots (env.inZone z₁) queue (bulkSpecs jobs) 1 u.db.nextUuid,
        slot.args.workflowId = some w ∧ slot.Held u.db w := by
      intro slot member
      obtain ⟨answer, -, -, job, there⟩ := forall₂_left holders member
      exact ⟨named slot member, answer.2.1, job, there⟩
    obtain ⟨result, again, rfl⟩ := map_eq_ok.mp accepted
    obtain ⟨rfl, zones⟩ := enqueueMany_zones same held again
    rw [heldAnswer_eq holders] at accepted zones
    refine ⟨_, accepted, (map_injective_eq_ok jobs_injective (_, _)).trans (zones.trans ?_)⟩
    refine (forall_congr' fun spec => forall_congr' fun _ => hash_iff EnqueueArgs.intent_text).trans ?_
    simp only [Repeatable.Alike, Repeatable.hashed, List.forall_mem_map]
  | @followup env₀ parentId id parentQueue spec index created db after job member _ _ still =>
    have absent : u.db.jobs.get? u.db.nextUuid = none := by
      by_contra here
      exact absurd (reachable.minted.jobs _ here) (lt_irrefl _)
    obtain ⟨result, again, rfl⟩ := map_eq_ok.mp accepted
    obtain ⟨rfl, parent, f, q, passes, zones⟩ := enqueueFollowup_zones z₂ member same absent still again
    refine ⟨_, accepted, (map_injective_eq_ok job_injective ((id, false), _)).trans (zones.trans ?_)⟩
    rw [hash_iff Followup.intent_text]
    simp [Repeatable.Alike, Repeatable.hashed, passes.stored, passes.parsed, passes.queue]
  | @fire env₀ a answer db after home run landed still =>
    obtain ⟨stored, last, recorded⟩ := fireSchedule_records run landed
    obtain ⟨s, found, last⟩ := lastAction_eq_some (still.trans last)
    have sha : env₀.sha256 = env.sha256 := congrArg Site.sha256 (home.trans server.symm)
    have own : a.hash (env₀.inZone z₁) = a.hash (env.inZone z₁) := congrFun sha _
    obtain ⟨result, again, rfl⟩ := map_eq_ok.mp accepted
    obtain ⟨attested, valid, rfl⟩ := (fireSchedule_last found last).mp again
    rw [if_pos own, ← recorded] at accepted
    refine ⟨_, accepted, (map_injective_eq_ok action_injective (_, _)).trans ((fireSchedule_last found last).trans ?_)⟩
    have alike : Repeatable.Alike env u.db z₁ z₂ (.fire a) ↔ a.hash (env.inZone z₁) = a.hash (env.inZone z₂) := by
      simp only [Repeatable.Alike, Repeatable.hashed, List.mem_singleton, forall_eq]
      exact (hash_iff FireArgs.document_text).symm
    rw [alike, own]
    constructor
    · rintro ⟨-, -, answered⟩
      by_contra differ
      rw [if_neg differ] at answered
      cases congrArg (·.1.replayed) answered
    · intro hash
      exact ⟨attested, valid, by rw [if_pos hash, recorded]⟩
  | @error env₀ e answer db after home run landed still =>
    obtain ⟨stored, last, recorded⟩ := scheduleError_records run landed
    obtain ⟨s, found, last⟩ := lastAction_eq_some (still.trans last)
    have sha : env₀.sha256 = env.sha256 := congrArg Site.sha256 (home.trans server.symm)
    have own (z : TimeZone) : e.hash (env₀.inZone z₁) = e.hash (env.inZone z) :=
      congrFun sha _
    obtain ⟨result, again, rfl⟩ := map_eq_ok.mp accepted
    obtain ⟨attested, valid, rfl⟩ := (scheduleError_last found last (own z₁)).mp again
    rw [← recorded] at accepted
    refine ⟨_, accepted, (map_injective_eq_ok action_injective (_, _)).trans
      ((scheduleError_last found last (own z₂)).trans ?_)⟩
    simp only [recorded, Repeatable.Alike, Repeatable.hashed, List.not_mem_nil, false_implies, implies_true, iff_true]
    exact ⟨attested, valid, trivial⟩

/-- A server whose digest is the text itself. -/
def Site.verbatim : Site := { Site.plain with sha256 := fun t => t }

/-- Three sessions: the last two write an instant under the same name and an hour ahead of the first. -/
def zulu : TimeZone := ⟨fun t => toString t, fun _ => none⟩

def greenwich : TimeZone := ⟨fun t => toString t, fun s => s.toInt?⟩

def hourAhead : TimeZone := ⟨fun t => toString (t + 3600000000) ++ "+01", fun _ => none⟩

/-- The call that compiles the maintenance schedule after its first claim. -/
def compiling : FireArgs := ⟨1, 2, 1, [], 10⟩

/-- The state after the first claim, with the fire call committed from the first session. -/
theorem compiling_stands : ∃ (s : System) (answer : ActionResult) (stored : StoredAction),
    System.Reachable .verbatim anyCall s ∧ Stands .verbatim anyCall zulu s (.fire compiling) (.action answer) ∧
      lastAction s.db 1 = some ⟨2, compiling.hash ((Env.alone .verbatim 1 2).inZone zulu), stored⟩ ∧
      answer = stored.result true 1 := by
  have played : System.plays .verbatim [(0, .claimSchedules (some "w") (some 1) (some 60))] (.installed .verbatim 0)
      (fun s => s.xid == 1 && match fireSchedule ((Env.alone .verbatim 1 2).inZone zulu) compiling s.db with
        | .ok (answer, _) => answer.outcome ≠ .stale
        | .error _ => false) = true := by decide +kernel
  obtain ⟨s, run, good⟩ := System.plays_run anyCall played fun _ _ _ => trivial
  obtain ⟨last, good⟩ := Bool.and_eq_true_iff.mp good
  have fresh : s.xid < 2 := beq_iff_eq.mp last ▸ Nat.lt_succ_self 1
  split at good
  · rename_i answer db fired
    have landed : answer.outcome ≠ .stale := of_decide_eq_true good
    have step : System.Step .verbatim ((Env.alone .verbatim 1 2).inZone zulu) (.fireSchedule compiling) s
        ⟨db, 1, 2, s.admitted ++ newJobs s.db db⟩ := .commit rfl fresh (map_eq_ok.mpr ⟨_, fired, rfl⟩)
    obtain ⟨stored, recorded, same⟩ := fireSchedule_records fired landed
    exact ⟨_, _, stored, ⟨0, run.trans (.step .start trivial step)⟩, .fire rfl fired landed rfl, recorded, same⟩
  · cases good

theorem compiling_accepted {s : System} {stored : StoredAction} {hash : String} (z : TimeZone)
    (last : lastAction s.db 1 = some ⟨2, hash, stored⟩) :
    ∃ r, Repeatable.run ((Env.alone .verbatim 1 3).inZone z) s.db (.fire compiling) = .ok r := by
  obtain ⟨row, found, last⟩ := lastAction_eq_some last
  exact ⟨_, map_eq_ok.mpr ⟨_, (fireSchedule_last (a := compiling) found last).mpr ⟨rfl, by decide, rfl⟩, rfl⟩⟩

/-- A session that writes instants alike gets the recorded answer. -/
theorem repetition_recognised_greenwich : ∃ (s : System) (answer : ActionResult) (db : Db),
    Repeatable.run ((Env.alone .verbatim 1 3).inZone greenwich) s.db (.fire compiling) = .ok (.action answer, db) := by
  obtain ⟨s, answer, stored, reached, stands, last, -⟩ := compiling_stands
  obtain ⟨db, -, second⟩ : ∃ db, _ ∧ (Repeatable.run ((Env.alone .verbatim 1 3).inZone greenwich) s.db (.fire compiling) =
      .ok (.action answer, db) ↔ _) := repetition_recognised reached stands trivial rfl (compiling_accepted zulu last)
  refine ⟨s, answer, db, second.mpr ?_⟩
  rintro h member
  cases List.mem_singleton.mp member
  exact .inl fun _ _ => rfl

/-- A session an hour ahead is told that its call is stale: the instants are the same and their texts are not. -/
theorem repetition_stale : ∃ (s : System) (answer stale : ActionResult) (db : Db),
    System.Reachable .verbatim anyCall s ∧ Stands .verbatim anyCall zulu s (.fire compiling) (.action answer) ∧
      Repeatable.SameInstants zulu hourAhead (.fire compiling) ∧
      Repeatable.run ((Env.alone .verbatim 1 3).inZone zulu) s.db (.fire compiling) = .ok (.action answer, db) ∧
      Repeatable.run ((Env.alone .verbatim 1 3).inZone hourAhead) s.db (.fire compiling) = .ok (.action stale, db) ∧
      answer.replayed = true ∧ stale.outcome = .stale ∧ stale.replayed = false := by
  obtain ⟨s, answer, stored, reached, stands, last, rfl⟩ := compiling_stands
  obtain ⟨row, found, last⟩ := lastAction_eq_some last
  have differ : compiling.hash ((Env.alone .verbatim 1 2).inZone zulu) ≠
      compiling.hash ((Env.alone .verbatim 1 3).inZone hourAhead) := by
    intro same
    exact absurd (FireArgs.document_text.mp same 10 (by decide)) (by decide)
  have first : fireSchedule ((Env.alone .verbatim 1 3).inZone zulu) compiling s.db = .ok _ :=
    (fireSchedule_last found last).mpr ⟨rfl, by decide, rfl⟩
  have second : fireSchedule ((Env.alone .verbatim 1 3).inZone hourAhead) compiling s.db = .ok _ :=
    (fireSchedule_last found last).mpr ⟨rfl, by decide, rfl⟩
  rw [if_neg differ] at second
  exact ⟨s, _, _, _, reached, stands, trivial, map_eq_ok.mpr ⟨_, first, rfl⟩, map_eq_ok.mpr ⟨_, second, rfl⟩, rfl, rfl, rfl⟩

end Recognition

end Taskq
