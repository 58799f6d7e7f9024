import Taskq.Lifecycle.QueuePaths
import Taskq.Lifecycle.ScriptPaths
import Taskq.Lifecycle.Targets

/-! Setting up one name from several transactions at once: the answers are those of a serial order as long as no insert
meets a row that was not there when its call looked. -/
namespace Taskq
open Relational

section Errors

variable {α β : Type} {call : Call α}

/-- The call raises no unique violation. -/
def Unclashing (call : Call α) : Prop := ∀ e, call = .error e → e.state ≠ .uniqueViolation

theorem tq422_other (message : String) : (tq422 message).state ≠ .uniqueViolation := nofun

namespace Unclashing

theorem ok (a : α) : Unclashing (.ok a : Call α) := nofun

theorem error {e : SqlError} (other : e.state ≠ .uniqueViolation) : Unclashing (.error e : Call α) := by
  intro _ raised
  cases raised
  exact other

theorem seq {next : α → Call β} (first : Unclashing call) (rest : ∀ a, Unclashing (next a)) :
    Unclashing (call >>= next) := fun e raised => by
  obtain raised | ⟨a, -, raised⟩ := seq_eq_error.mp raised
  · exact first e raised
  · exact rest a e raised

theorem ensure {p : Prop} [Decidable p] {e : SqlError} (other : e.state ≠ .uniqueViolation) :
    Unclashing (Relational.ensure p e) := fun _ raised => by
  obtain ⟨-, rfl⟩ := ensure_eq_error.mp raised
  exact other

theorem mapError {f : SqlError → SqlError} (other : ∀ e, (f e).state ≠ .uniqueViolation) :
    Unclashing (call.mapError f) := by
  cases call with
  | ok a => exact ok a
  | error e => exact error (other e)

end Unclashing

theorem checkProfileKeys_unclashing (keys : List String) : Unclashing (checkProfileKeys keys) := by
  induction keys with
  | nil => exact .ok _
  | cons key keys ih => exact .seq (.ensure (tq422_other _)) fun _ => ih

theorem populate_unclashing {profile : Jsonb} {key : String} {old : Option α} {cast : Jsonb → String → Call (Option α)} :
    Unclashing (populate profile key old cast) :=
  .mapError fun _ => tq422_other _

theorem required_unclashing {value : Option α} {p : α → Bool} {message : String} :
    Unclashing (required value p message) := by
  unfold required
  split
  · split_ifs
    · exact .ok _
    · exact .error (tq422_other _)
  · exact .error (tq422_other _)

theorem applyProfile_unclashing (env : Env) (profile : Jsonb) (old : Queue) :
    Unclashing (applyProfile env profile old) := by
  unfold applyProfile
  iterate 17 refine .seq populate_unclashing fun _ => ?_
  iterate 8 refine .seq required_unclashing fun _ => ?_
  refine .seq (.ensure (tq422_other _)) fun _ => .seq required_unclashing fun _ => ?_
  iterate 4 refine .seq (.ensure (tq422_other _)) fun _ => ?_
  iterate 2 refine .seq required_unclashing fun _ => ?_
  exact .ok _

theorem castText_unclashing {cast : String → Option α} {document : Jsonb} {key : String} :
    Unclashing (castText cast document key) := by
  unfold castText
  split
  · exact .ok _
  · split
    · exact .ok _
    · exact .error (by simp [SqlError.mk'])

theorem int4_unclashing (n : ℤ) : Unclashing (int4 n) := by
  unfold int4
  split_ifs
  · exact .ok _
  · exact .error nofun

theorem checkCronRange_unclashing (low high : ℤ) (base : List Char) : Unclashing (checkCronRange low high base) :=
  .seq (int4_unclashing _) fun _ => .seq (int4_unclashing _) fun _ => .ensure (tq422_other _)

theorem checkCronItem_unclashing (low high : ℤ) (item : List Char) : Unclashing (checkCronItem low high item) := by
  unfold checkCronItem
  refine .seq (.ensure (tq422_other _)) fun _ => .seq (int4_unclashing _) fun _ => .seq (.ensure (tq422_other _)) fun _ => ?_
  split_ifs
  · exact .ok _
  · exact checkCronRange_unclashing _ _ _

theorem checkCronItems_unclashing (low high : ℤ) (items : List (List Char)) :
    Unclashing (checkCronItems low high items) := by
  induction items with
  | nil => exact .ok _
  | cons item items ih => exact .seq (checkCronItem_unclashing _ _ _) fun _ => ih

theorem checkCronFields_unclashing (fields : List (String × ℤ × ℤ)) : Unclashing (checkCronFields fields) := by
  induction fields with
  | nil => exact .ok _
  | cons field fields ih =>
    exact .seq (.ensure (tq422_other _)) fun _ => .seq (checkCronItems_unclashing _ _ _) fun _ => ih

theorem normalizeRecurrence_unclashing (env : Env) (recurrence : Jsonb) :
    Unclashing (normalizeRecurrence env recurrence) := by
  unfold normalizeRecurrence
  refine .seq (.ensure (tq422_other _)) fun _ => ?_
  split_ifs
  · exact .seq (.ensure (tq422_other _)) fun _ => .seq (.mapError fun _ => tq422_other _) fun _ =>
      .seq (.ensure (tq422_other _)) fun _ => .ok _
  · exact .seq (.ensure (tq422_other _)) fun _ => .seq (.ensure (tq422_other _)) fun _ =>
      .seq (.ensure (tq422_other _)) fun _ => .seq (checkCronFields_unclashing _) fun _ => .ok _
  · exact .error (tq422_other _)

theorem checkTargetInt_unclashing (env : Env) (target : Jsonb) (key : String) (low high : ℤ) :
    Unclashing (checkTargetInt env target key low high) := by
  unfold checkTargetInt
  split
  · exact .ok _
  · exact .ok _
  · exact .seq (.mapError fun _ => tq422_other _) fun _ => .ensure (tq422_other _)
  · exact .error (tq422_other _)

theorem normalizeTarget_unclashing (env : Env) (target : Jsonb) (db : Db) :
    Unclashing (normalizeTarget env target db) := by
  unfold normalizeTarget
  refine .seq (.ensure (tq422_other _)) fun _ => .seq (.ensure (tq422_other _)) fun _ => .seq (.ensure nofun) fun _ => ?_
  iterate 2 refine .seq (.ensure (tq422_other _)) fun _ => ?_
  iterate 5 refine .seq (checkTargetInt_unclashing _ _ _ _ _) fun _ => ?_
  iterate 3 refine .seq (.ensure (tq422_other _)) fun _ => ?_
  exact .ok _

theorem parseDefinition_unclashing (env : Env) (definition : Jsonb) (db : Db) :
    Unclashing (parseDefinition env definition db) := by
  unfold parseDefinition
  refine .seq (.ensure (tq422_other _)) fun _ => .seq (normalizeTarget_unclashing _ _ _) fun _ =>
    .seq (normalizeRecurrence_unclashing _ _) fun _ => .seq (.ensure (tq422_other _)) fun _ =>
    .seq (.ensure (tq422_other _)) fun _ => .seq (.mapError fun _ => tq422_other _) fun _ =>
    .seq (.ensure (tq422_other _)) fun _ => .seq (.ensure (tq422_other _)) fun _ => .ok _

theorem wantsPaused_unclashing (env : Env) (definition : Jsonb) : Unclashing (wantsPaused env definition) :=
  .seq castText_unclashing fun _ => .ok _

theorem storeSchedule_unclashing (r : ScheduleRow) : Unclashing (storeSchedule r) := by
  unfold storeSchedule
  split
  · exact .ok _
  · exact .error (by rintro ⟨⟩)

theorem declareQueues_unclashing (queues : Option (List String)) (db : Db) : Unclashing (declareQueues queues db) :=
  .seq (.ensure (tq422_other _)) fun _ => .seq (.ensure nofun) fun _ => .ok _

end Errors

section Repeats

variable {env env' : Env} {profile : Jsonb} {old q : Queue}

theorem castInt_site (site : env.toSite = env'.toSite) : castInt env = castInt env' := by
  funext document key
  unfold castInt
  rw [site]

/-- What a profile makes of a queue depends on the site alone. -/
theorem applyProfile_site (site : env.toSite = env'.toSite) : applyProfile env profile old = applyProfile env' profile old := by
  have ints := castInt_site site
  have smalls : smallField env = smallField env' := by
    funext document key
    unfold smallField
    rw [site]
  simp only [applyProfile, ints, smalls, site]

/-- The stamp of a queue has no part in its profile. -/
theorem applyProfile_stamp (t : Time) : applyProfile env profile { old with updatedAt := t } =
    (applyProfile env profile old).map fun q => { q with updatedAt := t } := by
  simp only [applyProfile, map_next]
  rfl

/-- A column that was populated is populated again with the value that it has. -/
theorem populate_again {α : Type} {key : String} {old new v : Option α} {cast : Jsonb → String → Call (Option α)}
    (run : populate profile key old cast = .ok v) (kept : old = v → new = v) : populate profile key new cast = .ok v := by
  unfold populate at run ⊢
  split_ifs at run ⊢
  · exact run
  · cases run
    rw [kept rfl]
    rfl

theorem required_again {α : Type} {value : Option α} {p : α → Bool} {message : String} {a : α}
    (run : required value p message = .ok a) : value = some a := (required_eq_ok run).1

theorem BackoffMode.ofText?_text (m : BackoffMode) : BackoffMode.ofText? m.text = some m := by
  cases m <;> decide

theorem NotifyMode.ofText?_text (m : NotifyMode) : NotifyMode.ofText? m.text = some m := by
  cases m <;> decide

/-- A queue that was given a profile is given it again without a change. -/
theorem applyProfile_again (run : applyProfile env profile old = .ok q) : applyProfile env profile q = .ok q := by
  simp only [applyProfile, seq_eq_ok] at run
  obtain ⟨priority, p1, lease, p2, attempts, p3, mode, p4, base, p5, cap, p6, retention, p7, failedRetention, p8, depth, p9,
    notify, p10, running, p11, rate, p12, burst, p13, ramp, p14, ttl, p15, retry, p16, notifyMode, p17,
    priority', r1, lease', r2, attempts', r3, mode', r4, base', r5, cap', r6, retention', r7, failedRetention', r8, _, e1,
    notify', r9, _, e2, _, e3, _, e4, _, e5, retry', r10, notifyMode', r11, run⟩ := run
  have texts : some old.defaultBackoffMode.text = mode → some mode'.text = mode := by
    rintro rfl
    have own := required_again r4
    rw [Option.bind_some, BackoffMode.ofText?_text] at own
    cases own
    rfl
  have modes : some old.notifyMode.text = notifyMode → some notifyMode'.text = notifyMode := by
    rintro rfl
    have own := required_again r11
    rw [Option.bind_some, NotifyMode.ofText?_text] at own
    cases own
    rfl
  cases run
  have q1 := populate_again p1 fun _ => (required_again r1).symm
  have q2 := populate_again p2 fun _ => (required_again r2).symm
  have q3 := populate_again p3 fun _ => (required_again r3).symm
  have q4 := populate_again p4 texts
  have q5 := populate_again p5 fun _ => (required_again r5).symm
  have q6 := populate_again p6 fun _ => (required_again r6).symm
  have q7 := populate_again p7 fun _ => (required_again r7).symm
  have q8 := populate_again p8 fun _ => (required_again r8).symm
  have q9 : populate profile "max_depth" depth _ = _ := populate_again p9 fun _ => rfl
  have q10 := populate_again p10 fun _ => (required_again r9).symm
  have q11 : populate profile "max_running" running _ = _ := populate_again p11 fun _ => rfl
  have q12 : populate profile "claim_rate_per_minute" rate _ = _ := populate_again p12 fun _ => rfl
  have q13 : populate profile "claim_burst" burst _ = _ := populate_again p13 fun _ => rfl
  have q14 : populate profile "ramp_seconds" ramp _ = _ := populate_again p14 fun _ => rfl
  have q15 : populate profile "default_ttl_seconds" ttl _ = _ := populate_again p15 fun _ => rfl
  have q16 := populate_again p16 fun _ => (required_again r10).symm
  have q17 := populate_again p17 modes
  unfold applyProfile
  dsimp only
  simp only [q1, q2, q3, q4, q5, q6, q7, q8, q9, q10, q11, q12, q13, q14, q15, q16, q17, r1, r2, r3, r4, r5, r6, r7, r8, r9,
    r10, r11, e1, e2, e3, e4, e5, bind, Except.bind]

/-- What a definition says depends on the site and the queues alone. -/
theorem parseDefinition_site (site : env.toSite = env'.toSite) (definition : Jsonb) (db : Db) :
    parseDefinition env definition db = parseDefinition env' definition db := by
  have ints := castInt_site site
  simp only [parseDefinition, normalizeTarget, normalizeRecurrence, checkTargetInt, ints, site]

/-- The derived columns are derived again as they are. -/
theorem deriveColumns_again (site : env.toSite = env'.toSite) (s : ScheduleRow) :
    deriveColumns env' (deriveColumns env s) = deriveColumns env s := by
  have key (value : String) : (if (if value = "legacy" then s.name else value) = "legacy" then s.name else
      if value = "legacy" then s.name else value) = if value = "legacy" then s.name else value := by
    split_ifs <;> rfl
  have hash : definitionHash env' (deriveColumns env s) = definitionHash env s := by
    unfold definitionHash
    rw [site]
    rfl
  unfold deriveColumns at hash ⊢
  rw [hash]
  simp only [key]

end Repeats

section Scripts

variable {env : Env} {clash : SqlError} {id : Uuid} {name key kind actor : Option String} {profile params : Option Jsonb}
  {queues : Option (List String)} {rate burst : Option ℤ} {definition : Jsonb} {db : Db}

theorem attempt_steady {ε ρ α β : Type} {clash : ε} {made : ρ → Prop} {c : Script ε ρ α} (run : Except ε β)
    {next : β → Script ε ρ α} (steady : ∀ b, c.Steady clash made (next b)) :
    c.Steady clash made (.attempt run next) := by
  cases run with
  | error e => trivial
  | ok b => exact steady b

theorem attempt_indifferent {ε ρ α β : Type} {clash : ε} {made : ρ → Prop} {c : Script ε ρ α} (run : Except ε β)
    {next : β → Script ε ρ α} (indifferent : ∀ b, c.Indifferent clash made (next b)) :
    c.Indifferent clash made (.attempt run next) := by
  cases run with
  | error e => exact .inl rfl
  | ok b => exact indifferent b

theorem ensureQueueScript_steady : (ensureQueueScript env name profile).Steady clash (fun _ => True)
    (ensureQueueScript env name profile) :=
  attempt_steady _ fun _ => ⟨attempt_indifferent _ fun _ => .inr (.inl rfl), attempt_steady _ fun _ => trivial⟩

theorem setFlowLimitScript_steady : (setFlowLimitScript key rate burst).Steady clash (fun _ => True)
    (setFlowLimitScript key rate burst) :=
  attempt_steady _ fun _ => ⟨.inr (.inl rfl), trivial⟩

theorem createWorkflowScript_steady : (createWorkflowScript env id key kind params queues actor db).Steady clash
    (fun _ => True) (createWorkflowScript env id key kind params queues actor db) := by
  unfold createWorkflowScript
  generalize (do
    ensure (keyOk key) (tq422 "workflow_key must be 1..255 UTF-8 bytes")
    ensure ((kind.bind WorkflowKind.ofText?).isSome) (tq422 "workflow kind must be dag or batch")
    ensure (paramsOk params) (tq422 "workflow params must be an object of at most 64KB")
    ensure (actor.any (· ≠ "")) (tq422 "workflow actor is required")
    let declared ← declareQueues queues db
    storeWorkflow (newWorkflow env (key.getD "") ((kind.bind WorkflowKind.ofText?).getD .dag)
      (params.getD .null) (actor.getD "") declared 10000 none)) = run
  cases run with
  | error e => trivial
  | ok w =>
    refine ⟨fun v => rfl, fun row => ?_⟩
    cases row with
    | none => rfl
    | some v =>
      dsimp only
      unfold Script.attempt
      split <;> rfl

/-- A change that changes nothing. -/
theorem changeSchedule_same {change : ScheduleRow → ScheduleRow} {row : Uuid × Schedule}
    (same : change row.2.toScheduleRow = row.2.toScheduleRow) : changeSchedule change row = .ok row := by
  unfold changeSchedule storeSchedule
  rw [same, dif_pos row.2.checks]
  rfl

theorem putScheduleScript_steady : (putScheduleScript env id name definition actor db).Steady clash
    (fun row => row.2.pausedAudit = none) (putScheduleScript env id name definition actor db) := by
  have put (c : Script SqlError (Uuid × Schedule) WriteResult) : c.Steady clash (fun row => row.2.pausedAudit = none)
      (putScheduleUnattestedScript env id name definition actor db) :=
    attempt_steady _ fun _ => ⟨attempt_indifferent _ fun _ => .inr (.inl rfl), attempt_steady _ fun _ => trivial⟩
  unfold putScheduleScript
  generalize (do
    ensure env.attested attestationRequired
    ensure (reservedHeader definition = false) (tq422 "taskq_schedule header is reserved")
    wantsPaused env definition) = run
  cases run with
  | error e => trivial
  | ok paused =>
    cases paused with
    | true => exact put _
    | false =>
      refine ⟨.inr (.inr fun v clear => ?_), put _⟩
      have same : changeSchedule (fun s => { s with pausedAudit := none }) v = .ok v :=
        changeSchedule_same (by rw [← clear])
      simp [Script.attempt, Script.alone, same]

theorem ensureQueueScript_unclashing (row : Option Queue) :
    Unclashing ((ensureQueueScript env name profile).alone clash row) := by
  unfold ensureQueueScript
  rw [Script.attempt_alone]
  refine .seq (.seq (.ensure (tq422_other _)) fun _ => .seq (.ensure (tq422_other _)) fun _ =>
    checkProfileKeys_unclashing _) fun _ => ?_
  cases row with
  | none =>
    rw [Script.alone, Script.attempt_alone]
    exact .seq (applyProfile_unclashing _ _ _) fun _ => .ok _
  | some old =>
    rw [Script.alone, Script.attempt_alone]
    refine .seq (applyProfile_unclashing _ _ _) fun q => ?_
    split_ifs <;> exact .ok _

theorem setFlowLimitScript_unclashing (row : Option FlowLimit) :
    Unclashing ((setFlowLimitScript key rate burst).alone clash row) := by
  unfold setFlowLimitScript
  rw [Script.attempt_alone]
  refine .seq (.seq (.ensure (tq422_other _)) fun _ => .seq (.ensure (tq422_other _)) fun _ =>
    .ensure (tq422_other _)) fun _ => ?_
  cases row with
  | none => exact .ok _
  | some old =>
    rw [Script.alone]
    dsimp only
    split_ifs <;> exact .ok _

theorem createWorkflowScript_unclashing (row : Option (Uuid × Workflow)) :
    Unclashing ((createWorkflowScript env id key kind params queues actor db).alone clash row) := by
  have stored (r : WorkflowRow) : Unclashing (storeWorkflow r) := by
    unfold storeWorkflow
    split
    · exact .ok _
    · exact .error (by rintro ⟨⟩)
  unfold createWorkflowScript
  rw [Script.attempt_alone]
  refine .seq (.seq (.ensure (tq422_other _)) fun _ => .seq (.ensure (tq422_other _)) fun _ =>
    .seq (.ensure (tq422_other _)) fun _ => .seq (.ensure (tq422_other _)) fun _ =>
    .seq (declareQueues_unclashing _ _) fun _ => stored _) fun w => ?_
  cases row with
  | none => exact .ok _
  | some v =>
    simp only [Script.alone, Script.attempt_alone]
    exact .seq (.ensure (by rintro ⟨⟩)) fun _ => .ok _

theorem changeSchedule_unclashing (change : ScheduleRow → ScheduleRow) (row : Uuid × Schedule) :
    Unclashing (changeSchedule change row) :=
  .seq (storeSchedule_unclashing _) fun _ => .ok _

/-- The answer after a last `UPDATE`. -/
theorem update_alone {ε ρ α : Type} {clash : ε} (change : ρ → Except ε ρ) (next : Script ε ρ α) (v : ρ) :
    (Script.update change next).alone clash (some v) = change v >>= fun v => next.alone clash (some v) := by
  rw [Script.alone]
  cases change v <;> rfl

theorem putScheduleUnattestedScript_unclashing (row : Option (Uuid × Schedule)) :
    Unclashing ((putScheduleUnattestedScript env id name definition actor db).alone clash row) := by
  have derive (v : Uuid × Schedule) (answer : WriteResult) : Unclashing
      ((Script.update (changeSchedule (deriveColumns env)) (.answer answer)).alone clash (some v)) := by
    rw [update_alone]
    exact .seq (changeSchedule_unclashing _ _) fun _ => .ok _
  unfold putScheduleUnattestedScript
  rw [Script.attempt_alone]
  refine .seq (.seq (.ensure (tq422_other _)) fun _ => .seq (.ensure (tq422_other _)) fun _ =>
    parseDefinition_unclashing _ _ _) fun d => ?_
  cases row with
  | none =>
    rw [Script.alone, Script.attempt_alone]
    exact .seq (.seq (.ensure (by rintro ⟨⟩)) fun _ => storeSchedule_unclashing _) fun _ => derive _ _
  | some v =>
    rw [Script.alone, Script.attempt_alone]
    exact .seq (.seq (.ensure (tq422_other _)) fun _ => .ensure (by rintro ⟨⟩)) fun _ => derive _ _

theorem putScheduleScript_unclashing (row : Option (Uuid × Schedule)) :
    Unclashing ((putScheduleScript env id name definition actor db).alone clash row) := by
  unfold putScheduleScript
  rw [Script.attempt_alone]
  refine .seq (.seq (.ensure nofun) fun _ => .seq (.ensure (tq422_other _)) fun _ => wantsPaused_unclashing _ _)
    fun paused => ?_
  dsimp only
  split_ifs
  · exact putScheduleUnattestedScript_unclashing _
  · cases row with
    | none => exact putScheduleUnattestedScript_unclashing _
    | some v =>
      rw [update_alone]
      exact .seq (changeSchedule_unclashing _ _) fun _ => putScheduleUnattestedScript_unclashing _

section Alike

variable {env' : Env}

theorem applyProfile_fresh {q : Queue} {profile : Jsonb} (site : env.toSite = env'.toSite)
    (run : applyProfile env profile (.fresh env) = .ok q) :
    applyProfile env' profile (.fresh env') = .ok { q with updatedAt := env'.now } := by
  rw [← applyProfile_site site, show Queue.fresh env' = { Queue.fresh env with updatedAt := env'.now } from rfl,
    applyProfile_stamp, run]
  rfl

theorem ensureQueueScript_makes (site : env.toSite = env'.toSite) {r : (Upsert × Queue) × Option Queue}
    (run : (ensureQueueScript env name profile).alone clash none = .ok r) :
    ∃ q, (ensureQueueScript env' name profile).alone clash none = .ok ((.created, q), some q) ∧
      ∀ again : Env, again.toSite = env.toSite →
        (ensureQueueScript again name profile).alone clash (some q) = .ok ((.unchanged, q), some q) := by
  unfold ensureQueueScript at run ⊢
  simp only [Script.attempt_alone, seq_eq_ok, Script.alone] at run ⊢
  obtain ⟨⟨⟩, checks, q, apply, -⟩ := run
  obtain ⟨q', own⟩ : ∃ q', applyProfile env' _ (.fresh env') = .ok q' := ⟨_, applyProfile_fresh site apply⟩
  refine ⟨q', ⟨(), checks, q', own, rfl⟩, fun again here => ⟨(), checks, q', ?_, by rw [if_pos rfl]; rfl⟩⟩
  rw [applyProfile_site (here.trans site)]
  exact applyProfile_again own

theorem setFlowLimitScript_makes {r : Upsert × Option FlowLimit}
    (run : (setFlowLimitScript key rate burst).alone clash none = .ok r) :
    ∃ limit, (setFlowLimitScript key rate burst).alone clash none = .ok (.created, some limit) ∧
      (setFlowLimitScript key rate burst).alone clash (some limit) = .ok (.unchanged, some limit) := by
  unfold setFlowLimitScript at run ⊢
  simp only [Script.attempt_alone, seq_eq_ok, Script.alone] at run ⊢
  obtain ⟨⟨⟩, checks, -⟩ := run
  exact ⟨_, ⟨(), checks, rfl⟩, (), checks, by rw [if_pos rfl]; rfl⟩

theorem createWorkflowScript_makes {id' : Uuid} {r : WorkflowResult × Option (Uuid × Workflow)}
    (run : (createWorkflowScript env id key kind params queues actor db).alone clash none = .ok r) :
    ∃ w, (createWorkflowScript env' id' key kind params queues actor db).alone clash none =
        .ok (⟨.created, id', .running⟩, some (id', w)) ∧
      ∀ (again : Env) (other : Uuid), (createWorkflowScript again other key kind params queues actor db).alone clash
        (some (id', w)) = .ok (⟨.existed, id', .running⟩, some (id', w)) := by
  unfold createWorkflowScript at run ⊢
  simp only [Script.attempt_alone, seq_eq_ok, Script.alone] at run ⊢
  obtain ⟨stored, ⟨⟨⟩, named, ⟨⟩, kinds, ⟨⟩, document, ⟨⟩, who, declared, names, store⟩, -⟩ := run
  have anew (env : Env) : ∃ w, storeWorkflow (newWorkflow env (key.getD "") ((kind.bind WorkflowKind.ofText?).getD .dag)
      (params.getD .null) (actor.getD "") declared 10000 none) = .ok w ∧ w.toWorkflowRow = newWorkflow env (key.getD "")
        ((kind.bind WorkflowKind.ofText?).getD .dag) (params.getD .null) (actor.getD "") declared 10000 none := by
    unfold storeWorkflow at store ⊢
    split_ifs at store with fine
    exact ⟨_, dif_pos fine, rfl⟩
  obtain ⟨w, make, row⟩ := anew env'
  refine ⟨w, ⟨w, ⟨(), named, (), kinds, (), document, (), who, declared, names, make⟩, rfl⟩, fun again other => ?_⟩
  obtain ⟨w', make', row'⟩ := anew again
  refine ⟨w', ⟨(), named, (), kinds, (), document, (), who, declared, names, make'⟩, (), ensure_eq_ok.mpr ?_, ?_⟩
  · simp [row, row', newWorkflow, Jsonb.same]
  · rw [show w.status = .running by rw [row]; rfl]

theorem putScheduleUnattestedScript_makes {id' : Uuid} {d : Definition} (site : env.toSite = env'.toSite)
    (named : ensure (name.any fun n => isScheduleName n ∧ n ≠ janitorName) (tq422 "invalid schedule name") = .ok ())
    (who : ensure (actorOk actor = true) (tq422 "schedule actor is required") = .ok ())
    (parse : parseDefinition env definition db = .ok d) (policy : d.checkPolicy = .ok ()) :
    ∃ s : Schedule, (putScheduleUnattestedScript env' id' name definition actor db).alone clash none =
        .ok (s.result .created id', some (id', s)) ∧ s.pausedAudit = none ∧
      ∀ (again : Env) (other : Uuid), again.toSite = env.toSite →
        (putScheduleUnattestedScript again other name definition actor db).alone clash (some (id', s)) =
          .ok (s.result .unchanged id', some (id', s)) := by
  generalize row : scheduleAdmissionOwner (newSchedule env' (name.getD "") d (actor.getD "")) db = r
  have fine : r.checksOk = true := row ▸ newSchedule_checks parse env' _ _
  have derived : (deriveColumns env' r).checksOk = true := fine
  have store : storeSchedule r = .ok ⟨r, fine⟩ := dif_pos fine
  have derive : changeSchedule (deriveColumns env') (id', ⟨r, fine⟩) = .ok (id', ⟨_, derived⟩) := by
    unfold changeSchedule storeSchedule
    rw [dif_pos derived]
    rfl
  refine ⟨⟨_, derived⟩, ?_, by subst row; rfl, fun again other here => ?_⟩
  · unfold putScheduleUnattestedScript
    simp only [Script.attempt_alone, seq_eq_ok, Script.alone]
    refine ⟨d, ⟨(), named, (), who, parseDefinition_site site definition db ▸ parse⟩, ⟨r, fine⟩, ⟨(), policy, row ▸ store⟩, ?_⟩
    rw [derive]
    subst row
    rfl
  · unfold putScheduleUnattestedScript
    simp only [Script.attempt_alone, seq_eq_ok, Script.alone]
    refine ⟨d, ⟨(), named, (), who, parseDefinition_site here definition db ▸ parse⟩, (), ⟨(), ensure_eq_ok.mpr ?_,
      ensure_eq_ok.mpr ⟨?_, ?_⟩⟩, ?_⟩
    · obtain ⟨_, _, _, -, normal⟩ := parseDefinition_normalized parse
      subst row
      exact (normalizeTarget_targeted normal).kind
    · obtain ⟨p, there⟩ := Option.isSome_iff_exists.mp (ensure_eq_ok.mp policy)
      subst row
      simp [Definition.sameAs, Definition.policy, deriveColumns, scheduleAdmissionOwner, newSchedule, Jsonb.same, there]
    · subst row
      cases paused : d.paused <;> simp [deriveColumns, scheduleAdmissionOwner, newSchedule, Definition.state, paused]
    · rw [changeSchedule_same (deriveColumns_again (site.symm.trans here.symm) r)]

theorem wantsPaused_site (site : env.toSite = env'.toSite) (definition : Jsonb) :
    wantsPaused env definition = wantsPaused env' definition := by
  unfold wantsPaused
  rw [site]

theorem putScheduleScript_makes {id' : Uuid} {r : WriteResult × Option (Uuid × Schedule)}
    (site : env.toSite = env'.toSite) (attested : env.attested = env'.attested)
    (run : (putScheduleScript env id name definition actor db).alone clash none = .ok r) :
    ∃ s : Schedule, (putScheduleScript env' id' name definition actor db).alone clash none =
        .ok (s.result .created id', some (id', s)) ∧
      ∀ (again : Env) (other : Uuid), again.toSite = env.toSite → again.attested = env.attested →
        (putScheduleScript again other name definition actor db).alone clash (some (id', s)) =
          .ok (s.result .unchanged id', some (id', s)) := by
  unfold putScheduleScript at run ⊢
  simp only [Script.attempt_alone, seq_eq_ok] at run ⊢
  obtain ⟨paused, ⟨⟨⟩, session, ⟨⟩, header, wants⟩, run⟩ := run
  have body : ∃ r, (putScheduleUnattestedScript env id name definition actor db).alone clash none = .ok r := by
    cases paused <;> exact ⟨r, run⟩
  obtain ⟨r, body⟩ := body
  unfold putScheduleUnattestedScript at body
  simp only [Script.attempt_alone, seq_eq_ok, Script.alone] at body
  obtain ⟨d, ⟨⟨⟩, named, ⟨⟩, who, parse⟩, s, ⟨⟨⟩, policy, -⟩, -⟩ := body
  obtain ⟨s, make, clear, found⟩ : ∃ s : Schedule, Script.alone clash _ none = _ ∧ _ :=
    putScheduleUnattestedScript_makes site named who parse policy
  refine ⟨s, ⟨paused, ⟨(), attested ▸ session, (), header, wantsPaused_site site definition ▸ wants⟩, ?_⟩,
    fun again other here session' => ⟨paused, ⟨(), session' ▸ session, (), header, wantsPaused_site here definition ▸ wants⟩, ?_⟩⟩
  · cases paused <;> exact make
  · cases paused with
    | true => exact found again other here
    | false =>
      have same : changeSchedule (fun s => { s with pausedAudit := none }) (id', s) = .ok (id', s) :=
        changeSchedule_same (by rw [← clear])
      rw [if_neg (by decide), update_alone, same]
      exact found again other here

/-- Neither a new schedule nor one that is found unchanged gets a pause audit. -/
theorem putScheduleScript_clear {row : Option (Uuid × Schedule)} {v : Uuid × Schedule} {answer : WriteResult}
    (clear : ∀ u, row = some u → u.2.pausedAudit = none)
    (run : (putScheduleScript env id name definition actor db).alone clash row = .ok (answer, some v)) :
    v.2.pausedAudit = none := by
  have change {f : ScheduleRow → ScheduleRow} {u v : Uuid × Schedule} (run : changeSchedule f u = .ok v)
      (kept : (f u.2.toScheduleRow).pausedAudit = none) : v.2.pausedAudit = none := by
    simp only [changeSchedule, seq_eq_ok] at run
    obtain ⟨s, store, done⟩ := run
    cases done
    unfold storeSchedule at store
    split_ifs at store
    cases store
    exact kept
  have put {row : Option (Uuid × Schedule)} (clear : ∀ u, row = some u → u.2.pausedAudit = none)
      (run : (putScheduleUnattestedScript env id name definition actor db).alone clash row = .ok (answer, some v)) :
      v.2.pausedAudit = none := by
    unfold putScheduleUnattestedScript at run
    simp only [Script.attempt_alone, seq_eq_ok] at run
    obtain ⟨d, -, run⟩ := run
    rw [Script.alone] at run
    cases row with
    | none =>
      rw [Script.attempt_alone] at run
      obtain ⟨s, create, run⟩ := seq_eq_ok.mp run
      obtain ⟨_, _, store⟩ := seq_eq_ok.mp create
      unfold storeSchedule at store
      split_ifs at store
      cases store
      rw [Script.alone, update_alone] at run
      obtain ⟨w, derive, run⟩ := seq_eq_ok.mp run
      cases run
      exact change derive rfl
    | some u =>
      simp only [Script.attempt_alone, seq_eq_ok, update_alone] at run
      obtain ⟨⟨⟩, -, w, derive, run⟩ := run
      cases run
      exact change derive (clear u rfl)
  unfold putScheduleScript at run
  simp only [Script.attempt_alone, seq_eq_ok] at run
  obtain ⟨paused, -, run⟩ := run
  split_ifs at run
  · exact put clear run
  · cases row with
    | none => exact put (fun u absent => (Option.some_ne_none u absent.symm).elim) run
    | some u =>
      rw [update_alone] at run
      obtain ⟨w, cleared, run⟩ := seq_eq_ok.mp run
      refine put (fun u' same => ?_) run
      cases same
      exact change cleared rfl

end Alike

end Scripts

section Convergence

/-- What an `INSERT` raises that meets a row of its name. -/
def duplicateKey : SqlError := .mk' .uniqueViolation "duplicate key value violates unique constraint"

/-- Calls on one name whose row was `row` have converged so far. -/
structure CallsConverged {ι ρ α : Type} (scripts : ι → Script SqlError ρ α) (alike : Prop) (creates repeats : α → ρ → Prop)
    (row : Option ρ) (r : Race ι SqlError ρ α) : Prop where
  /-- The answers, the errors and the row are those of a serial order of the finished calls. -/
  serial : Serializable (fun i => (scripts i).call duplicateKey) row r.result r.row
  /-- No call has failed with a unique violation. -/
  unclashing : ∀ i e, r.result i = some (.error e) → e.state ≠ .uniqueViolation
  /-- Of calls alike on a new name, one has created the row and the others have found it. -/
  once : alike → row = none → ∀ i a, r.result i = some (.ok a) → ∃ first a v, r.row = some v ∧
    r.result first = some (.ok a) ∧ creates a v ∧
    ∀ j b, j ≠ first → r.result j = some b → ∃ b', b = .ok b' ∧ repeats b' v

/-- Any number of calls of a verb on one name converge, in whatever order their statements come; `timely` says which
statement may be next. -/
def Converges {κ ρ α : Type} (script : κ → Script SqlError ρ α) (alike : κ → κ → Prop) (creates repeats : α → ρ → Prop)
    (timely : (ι : Type) → Race ι SqlError ρ α → ι → Prop) : Prop :=
  ∀ (ι : Type) [DecidableEq ι] (calls : ι → κ) (row : Option ρ) (r : Race ι SqlError ρ α),
    Race.Run duplicateKey (timely ι) (.start (fun i => script (calls i)) row) r →
      CallsConverged (fun i => script (calls i)) (∀ i j, alike (calls i) (calls j)) creates repeats row r

structure QueueRequest where
  env : Env
  profile : Option Jsonb

structure ScheduleRequest where
  env : Env
  /-- The id that an insert would draw. -/
  id : Uuid
  definition : Jsonb
  actor : Option String

structure WorkflowRequest where
  env : Env
  id : Uuid
  kind : Option String
  params : Option Jsonb
  queues : Option (List String)
  actor : Option String

structure LimitRequest where
  rate : Option ℤ
  burst : Option ℤ

def EnsureQueueConverges (name : Option String)
    (timely : (ι : Type) → Race ι SqlError Queue (Upsert × Queue) → ι → Prop) : Prop :=
  Converges (fun c : QueueRequest => ensureQueueScript c.env name c.profile)
    (fun c c' => c.env.toSite = c'.env.toSite ∧ c.profile = c'.profile)
    (fun a q => a = (.created, q)) (fun a q => a = (.unchanged, q)) timely

def PutScheduleConverges (name : Option String) (db : Db)
    (timely : (ι : Type) → Race ι SqlError (Uuid × Schedule) WriteResult → ι → Prop) : Prop :=
  Converges (fun c : ScheduleRequest => putScheduleScript c.env c.id name c.definition c.actor db)
    (fun c c' => c.env.toSite = c'.env.toSite ∧ c.env.attested = c'.env.attested ∧ c.definition = c'.definition ∧
      c.actor = c'.actor)
    (fun a v => a = v.2.result .created v.1) (fun a v => a = v.2.result .unchanged v.1) timely

def CreateWorkflowConverges (key : Option String) (db : Db)
    (timely : (ι : Type) → Race ι SqlError (Uuid × Workflow) WorkflowResult → ι → Prop) : Prop :=
  Converges (fun c : WorkflowRequest => createWorkflowScript c.env c.id key c.kind c.params c.queues c.actor db)
    (fun c c' => c.kind = c'.kind ∧ c.params = c'.params ∧ c.queues = c'.queues ∧ c.actor = c'.actor)
    (fun a v => a = ⟨.created, v.1, .running⟩) (fun a v => a = ⟨.existed, v.1, .running⟩) timely

def SetFlowLimitConverges (key : Option String)
    (timely : (ι : Type) → Race ι SqlError FlowLimit Upsert → ι → Prop) : Prop :=
  Converges (fun c : LimitRequest => setFlowLimitScript key c.rate c.burst) (fun c c' => c = c')
    (fun a _ => a = .created) (fun a _ => a = .unchanged) timely

/-- The next statement is no insert that meets a row. -/
def finds {ρ α : Type} (ι : Type) (r : Race ι SqlError ρ α) (i : ι) : Prop := r.clashes i = false

/-- Any statement may be next. -/
def anyOrder {ρ α : Type} (ι : Type) (_ : Race ι SqlError ρ α) (_ : ι) : Prop := True

theorem call_unclashing {ρ α : Type} {clash : SqlError} {script : Script SqlError ρ α} {row : Option ρ} {e : SqlError}
    (fine : Unclashing (script.alone clash row)) (failed : .error e = (script.call clash row).1) :
    e.state ≠ .uniqueViolation := by
  unfold Script.call at failed
  cases run : script.alone clash row with
  | ok a =>
    rw [run] at failed
    cases failed
  | error own =>
    rw [run] at failed
    cases failed
    exact fine _ run

/-- A verb converges in every run in which no insert meets a row. -/
theorem Converges.of {κ ρ α : Type} {script : κ → Script SqlError ρ α} {alike : κ → κ → Prop}
    {creates repeats : α → ρ → Prop} (made : ρ → Prop)
    (steady : ∀ c, (script c).Steady duplicateKey made (script c))
    (makes : ∀ c row a v, (∀ u, row = some u → made u) → (script c).alone duplicateKey row = .ok (a, some v) → made v)
    (unclashing : ∀ c row, Unclashing ((script c).alone duplicateKey row))
    (creation : ∀ c c' r, alike c c' → (script c).alone duplicateKey none = .ok r →
      ∃ a v, (script c').alone duplicateKey none = .ok (a, some v) ∧ creates a v ∧
        ∀ again, alike c again → ∃ b, (script again).alone duplicateKey (some v) = .ok (b, some v) ∧ repeats b v) :
    Converges script alike creates repeats finds := by
  intro ι _ calls row r run
  have serial : Serializable (fun i => (script (calls i)).call duplicateKey) row r.result r.row :=
    run.serializable (fun i => makes (calls i)) fun i => steady (calls i)
  refine ⟨serial, fun i e failed => ?_, fun same absent i a answered => ?_⟩
  · obtain ⟨u, -, raised⟩ := serial.answered (I := fun _ => True) trivial (fun _ _ _ => trivial) failed
    exact call_unclashing (unclashing _ u) raised
  · subst absent
    refine Race.Serializable.once serial (fun i j r run => ?_) answered
    obtain ⟨a, v, make, created, again⟩ := creation _ (calls j) r (same i j) run
    exact ⟨a, v, make, created, fun k => again (calls k) (same i k)⟩

/-- A verb that inserts only where there is no row converges in every run. -/
theorem Converges.polite {κ ρ α : Type} {script : κ → Script SqlError ρ α} {alike : κ → κ → Prop}
    {creates repeats : α → ρ → Prop} {timely : (ι : Type) → Race ι SqlError ρ α → ι → Prop}
    (converges : Converges script alike creates repeats finds) (polite : ∀ c, (script c).Polite) :
    Converges script alike creates repeats timely :=
  fun ι _ calls row r run => converges ι calls row r (run.polite fun i => polite (calls i)).2

theorem ensureQueue_converges (name : Option String) : EnsureQueueConverges name finds := by
  refine Converges.of (fun _ => True) (fun _ => ensureQueueScript_steady) (fun _ _ _ _ _ _ => trivial)
    (fun _ => ensureQueueScript_unclashing) ?_
  rintro c c' r ⟨site, profile⟩ run
  obtain ⟨q, make, found⟩ := ensureQueueScript_makes site run
  exact ⟨_, q, profile ▸ make, rfl, fun again ⟨here, same⟩ => ⟨_, same ▸ found again.env here.symm, rfl⟩⟩

theorem putSchedule_converges (name : Option String) (db : Db) : PutScheduleConverges name db finds := by
  refine Converges.of _ (fun _ => putScheduleScript_steady) (fun _ _ _ _ => putScheduleScript_clear)
    (fun _ => putScheduleScript_unclashing) ?_
  rintro c c' r ⟨site, attested, definition, actor⟩ run
  obtain ⟨s, make, found⟩ := putScheduleScript_makes site attested run
  refine ⟨_, (c'.id, s), definition ▸ actor ▸ make, rfl, fun again ⟨here, session, same, who⟩ => ⟨_, ?_, rfl⟩⟩
  exact same ▸ who ▸ found again.env again.id here.symm session.symm

theorem createWorkflow_polite {env : Env} {id : Uuid} {key kind actor : Option String} {params : Option Jsonb}
    {queues : Option (List String)} {db : Db} :
    (createWorkflowScript env id key kind params queues actor db).Polite := by
  have attempt {β : Type} (run : Call β) {next : β → Script SqlError (Uuid × Workflow) WorkflowResult}
      (polite : ∀ b, (next b).Polite) : (Script.attempt run next).Polite := by
    cases run with
    | error e => trivial
    | ok b => exact polite b
  unfold createWorkflowScript
  refine attempt _ fun w free => ?_
  cases free with
  | true => trivial
  | false =>
    intro row
    cases row with
    | none => trivial
    | some v => exact attempt _ fun _ => trivial

theorem createWorkflow_converges (key : Option String) (db : Db) : CreateWorkflowConverges key db anyOrder := by
  refine Converges.polite (Converges.of (fun _ => True) (fun _ => createWorkflowScript_steady)
    (fun _ _ _ _ _ _ => trivial) (fun _ => createWorkflowScript_unclashing) ?_) fun _ => createWorkflow_polite
  rintro c c' r ⟨kind, params, queues, actor⟩ run
  obtain ⟨w, make, found⟩ : ∃ w, (createWorkflowScript c'.env c'.id _ _ _ _ _ _).alone _ none = _ ∧ _ :=
    createWorkflowScript_makes run
  refine ⟨_, (c'.id, w), kind ▸ params ▸ queues ▸ actor ▸ make, rfl, ?_⟩
  rintro again ⟨kind, params, queues, actor⟩
  exact ⟨_, kind ▸ params ▸ queues ▸ actor ▸ found again.env again.id, rfl⟩

theorem setFlowLimit_converges (key : Option String) : SetFlowLimitConverges key finds := by
  refine Converges.of (fun _ => True) (fun _ => setFlowLimitScript_steady) (fun _ _ _ _ _ _ => trivial)
    (fun _ => setFlowLimitScript_unclashing) ?_
  rintro c c' r rfl run
  obtain ⟨limit, make, found⟩ := setFlowLimitScript_makes run
  exact ⟨_, limit, make, rfl, fun again same => ⟨_, same ▸ found, rfl⟩⟩

/-- Whether a call has failed with a unique violation. -/
def clashed {ρ α : Type} (i : Bool) (r : Race Bool SqlError ρ α) : Bool :=
  match r.result i with
  | some (.error e) => e.state = .uniqueViolation
  | _ => false

/-- Two calls whose statements come in this order, of which one clashes, do not converge. -/
theorem not_converges {κ ρ α : Type} {script : κ → Script SqlError ρ α} {alike : κ → κ → Prop}
    {creates repeats : α → ρ → Prop} {i : Bool} (calls : Bool → κ) (order : List Bool)
    (played : ((Race.start (fun i => script (calls i)) none).play duplicateKey (fun _ _ => true) order).any (clashed i) = true) :
    ¬Converges script alike creates repeats anyOrder := by
  intro converges
  obtain ⟨r, order, clash⟩ := (Option.any_eq_true _ _).mp played
  have converged := converges Bool calls none r (Race.Run.play (fun _ _ _ => trivial) order)
  unfold clashed at clash
  split at clash
  · rename_i e failed
    exact converged.unclashing i e failed (of_decide_eq_true clash)
  · cases clash

/-- Of the verbs that set up a name `create_workflow` converges whatever the order of the statements is, the others as
long as none of their inserts meets a row. -/
theorem config_verbs_converge (name : Option String) (db : Db) :
    EnsureQueueConverges name finds ∧ PutScheduleConverges name db finds ∧
      CreateWorkflowConverges name db anyOrder ∧ SetFlowLimitConverges name finds :=
  ⟨ensureQueue_converges name, putSchedule_converges name db, createWorkflow_converges name db,
    setFlowLimit_converges name⟩

/-- A database with the queue `q`. -/
def withQueue : Db :=
  let db := Db.installed .digits 0
  { db with queues := db.queues.put "q" (.fresh (.alone .digits 0 1)) }

def minuteSchedule : Jsonb :=
  .build [("target", .build [("kind", .str "job"), ("queue", .str "q"), ("job_type", .str "t")]),
    ("recurrence", .build [("kind", .str "interval"), ("interval_seconds", .ofInt 60)]),
    ("catchup_policy", .str "fire_all"), ("max_catchup", .ofInt 1)]

/-- Two replicas set up the queue `q` one after the other: one creates it, the other finds it unchanged. -/
theorem config_verbs_converge_two : ∃ r : Race Bool SqlError Queue (Upsert × Queue),
    Race.Run duplicateKey (finds Bool)
      (.start (fun i => ensureQueueScript (.alone .digits 0 (if i then 2 else 1)) (some "q") none) none) r ∧
    (r.result false).isSome ∧ (r.result true).isSome ∧
    ∃ first q, r.row = some q ∧ r.result first = some (.ok (.created, q)) ∧
      ∀ j b, j ≠ first → r.result j = some b → b = .ok (.unchanged, q) := by
  let calls (i : Bool) : QueueRequest := ⟨.alone .digits 0 (if i then 2 else 1), none⟩
  have played : ((Race.start (fun i => ensureQueueScript (calls i).env (some "q") (calls i).profile) none).play
      duplicateKey (fun r i => !r.clashes i) [false, false, false, false, true, true, true]).any
      (fun r => (r.result false).any (·.toOption.isSome) && (r.result true).isSome) = true := by decide +kernel
  obtain ⟨r, played, done⟩ := (Option.any_eq_true _ _).mp played
  have run : Race.Run duplicateKey (finds Bool) _ r := Race.Run.play (fun r i calm => by simpa [finds] using calm) played
  have converged := (config_verbs_converge (some "q") withQueue).1 Bool calls none r run
  rw [Bool.and_eq_true] at done
  obtain ⟨created, finished⟩ := done
  obtain ⟨a, answered, fine⟩ := (Option.any_eq_true _ _).mp created
  cases a with
  | error e => cases fine
  | ok a =>
    obtain ⟨first, b, q, row, created, rfl, others⟩ := converged.once (fun _ _ => ⟨rfl, rfl⟩) rfl false a answered
    refine ⟨r, run, by rw [answered]; rfl, finished, first, q, row, created, fun j b other answered => ?_⟩
    obtain ⟨b', rfl, rfl⟩ := others j b other answered
    rfl

/-- The first call reads, the second reads, the first commits and then the second inserts. -/
theorem config_verbs_clash : ¬EnsureQueueConverges (some "q") anyOrder ∧
    ¬PutScheduleConverges (some "s") withQueue anyOrder ∧ ¬SetFlowLimitConverges (some "k") anyOrder := by
  let env (i : Bool) : Env := .alone .digits 0 (if i then 2 else 1)
  refine ⟨?_, ?_, ?_⟩
  · exact not_converges (i := true) (fun i => ⟨env i, none⟩) [false, true, false, false, false, true] (by decide +kernel)
  · exact not_converges (i := true) (fun i => ⟨env i, if i then 5 else 4, minuteSchedule, some "a"⟩)
      [false, true, false, true, false, false, false, true] (by decide +kernel)
  · exact not_converges (i := true) (fun _ => ⟨some 60, none⟩) [false, true, false, false, true] (by decide +kernel)

end Convergence

end Taskq
