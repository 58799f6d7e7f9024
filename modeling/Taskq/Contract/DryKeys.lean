import Taskq.Claiming.Total

/-! Jobs of dry flow keys stand in the way of other jobs when they use up the scans of a claim. -/
namespace Taskq
open Relational

namespace ClaimCall

variable {env : Env} {c : ClaimCall} {q : Queue} {db : Db}

/-- The claim returns, with at least one job. -/
def Starts (env : Env) (c : ClaimCall) (db : Db) : Prop :=
  ∃ answer db', c.run env db = .ok (answer, db') ∧ answer.jobs ≠ []

/-- One of the candidates that the scans of the claim get to, in claim order, finds what it needs. -/
def Reaches (env : Env) (c : ClaimCall) (db : Db) : Prop :=
  ∃ e ∈ (c.lineup env db).take (c.granted env db + 20).toNat, (db.room env).serves e = true

/-- The numbers that the claim computes fit their types. -/
structure Fits (env : Env) (c : ClaimCall) (q : Queue) (db : Db) : Prop where
  tokens : TokensFit env c.args.queue q db
  ages : Aged env c.args (c.aging db) db.toCore
  attempts : ∀ e ∈ c.serves env db (c.granted env db), e.2.attemptCount < 32767

/-- Of the candidates that a claim may look at, some job is served as soon as one can be. -/
theorem serves_ne_nil_iff (unthrottled : 0 < c.granted env db) :
    c.serves env db (c.granted env db) ≠ [] ↔ c.Reaches env db :=
  serve_ne_nil_iff (Int.pos_iff_toNat_pos.mp unthrottled)

theorem starts_reaches {site : Site} {s : System} (reachable : System.Reachable site anyCall s)
    (unthrottled : 0 < c.granted env s.db) (starts : c.Starts env s.db) : c.Reaches env s.db := by
  obtain ⟨answer, db', run, some'⟩ := starts
  have ids := (c.outcome run reachable.rated).serves
  rw [← serves_ne_nil_iff unthrottled]
  intro nobody
  rw [nobody, List.map_nil, List.map_eq_nil_iff] at ids
  exact some' ids

theorem granted_pos (unthrottled : 0 < c.granted env db) : breakerPasses env c.args.queue db = true ∧
    ∃ q, db.queues.get? c.args.queue = some q ∧ q.pausedAt.isSome = false := by
  unfold granted at unthrottled
  split_ifs at unthrottled with passes
  · refine ⟨passes, ?_⟩
    split at unthrottled
    · cases unthrottled
    · rename_i q stored
      split_ifs at unthrottled with paused
      · cases unthrottled
      · exact ⟨q, stored, eq_false_of_ne_true paused⟩
  · cases unthrottled

theorem reaches_starts {site : Site} {s : System} (reachable : System.Reachable site anyCall s)
    (attested : env.attested = true) (valid : c.Valid) (stored : s.db.queues.get? c.args.queue = some q)
    (unthrottled : 0 < c.granted env s.db) (fits : c.Fits env q s.db) (reaches : c.Reaches env s.db) :
    c.Starts env s.db := by
  obtain ⟨passes, _, stored', going⟩ := granted_pos unthrottled
  cases stored.symm.trans stored'
  obtain ⟨gated, pass⟩ := breakerGate_total passes
  have grants := granted_going pass stored going
  have same : TokensFit env c.args.queue q gated := fun rate rated => by
    rw [(breakerGate_unseen pass).bucketLimit, breakerGate_tat pass]
    exact fits.tokens rate rated
  have enough : 0 < Taskq.granted env c.args.queue q c.batch gated := grants ▸ unthrottled
  obtain ⟨entered, gate⟩ := queueGate_total same enough
  rw [← grants] at gate
  have unseen := (breakerGate_unseen pass).trans (queueGate_unseen gate)
  obtain ⟨low, high⟩ := queueGate_grant (batch_pos valid) gate
  obtain ⟨⟨jobs, looped⟩, loop⟩ :=
    (loop_total unseen reachable.sound reachable.rated fits.ages low high).mpr fits.attempts
  have some' : jobs ≠ [] := by
    rintro rfl
    have nobody := (loop_served unseen reachable.rated low high loop).1
    rw [List.map_nil, eq_comm, List.map_eq_nil_iff] at nobody
    exact (serves_ne_nil_iff unthrottled).mpr reaches nobody
  refine ⟨⟨.claimed, jobs, none⟩, looped, ?_, some'⟩
  rw [run_eq attested valid, pass]
  have queues := (breakerGate_unseen pass).queues
  simp only [bind, Except.bind, claimBody, queues, stored, going, Bool.false_eq_true, if_false, runClaim]
  rw [show (if c.args.jobId.isSome then 1 else c.args.batch.getD 1) = c.batch from rfl, gate]
  dsimp only
  rw [loop]
  simp [some']

end ClaimCall

/-- A claim that its gates let through returns a job only when one of the first granted + 20 candidates
in claim order can be served, whatever its keys; and it returns one then, as long as its numbers fit.
A job without keys among these candidates can be served. -/
theorem dry_keys_pass {site : Site} {s : System} {env : Env} {c : ClaimCall} {q : Queue}
    (reachable : System.Reachable site anyCall s) (attested : env.attested = true) (valid : c.Valid)
    (stored : s.db.queues.get? c.args.queue = some q) (unthrottled : 0 < c.granted env s.db) :
    (c.Starts env s.db → c.Reaches env s.db) ∧
    (c.Fits env q s.db → c.Reaches env s.db → c.Starts env s.db) ∧
    ∀ e ∈ (c.lineup env s.db).take (c.granted env s.db + 20).toNat,
      e.2.flowKey = none → e.2.concurrencyKey = none → c.Reaches env s.db :=
  ⟨ClaimCall.starts_reaches reachable unthrottled,
    ClaimCall.reaches_starts reachable attested valid stored unthrottled,
    fun e member flow slot => ⟨e, member, by simp [Room.serves, flow, slot]⟩⟩

/-- A job of a flow key. -/
def keyed : Command := .enqueue { EnqueueArgs.simple "q" with flowKey := some "k" }

/-- A key with one token a minute, the jobs that wait for it, and one job without keys behind them;
then one of the jobs takes the token. -/
def behindDry (dry : ℕ) : List (Time × Command) :=
  [(0, .ensureQueue (some "q") none), (0, .setFlowLimit (some "k") (some 1) (some 1))] ++
    List.replicate (dry + 1) (0, keyed) ++ [(0, .enqueue (.simple "q")), (0, .claimJobs (.simple "q" 1))]

theorem oneJob_valid : oneJob.Valid := by
  refine ⟨?_, ?_, ?_, ?_, ?_, ?_⟩ <;> decide

/-- The surroundings of a claim that meets no other transaction. -/
def quiet : Env := .alone .plain 0 99

/-- Behind 20 dry jobs the job without keys is reached. -/
theorem dry_keys_pass_behind_twenty : ∃ s : System, System.Reachable .plain anyCall s ∧
    oneJob.Starts quiet s.db := by
  have played : System.plays .plain (behindDry 20) (.installed .plain 0) (fun s =>
    (s.db.queues.get? "q").any (·.claimRatePerMinute = none) && oneJob.aging s.db = none &&
      (oneJob.serves quiet s.db (oneJob.granted quiet s.db)).all (·.2.attemptCount < 32767) &&
      0 < oneJob.granted quiet s.db &&
      ((oneJob.lineup quiet s.db).take (oneJob.granted quiet s.db + 20).toNat).any
        fun e => e.2.flowKey.isNone && e.2.concurrencyKey.isNone) = true := by decide +kernel
  obtain ⟨s, run, there⟩ := System.plays_run anyCall played fun _ _ _ => trivial
  simp only [Bool.and_eq_true, decide_eq_true_eq, List.all_eq_true, List.any_eq_true] at there
  obtain ⟨⟨⟨⟨rated, aging⟩, attempts⟩, unthrottled⟩, e, member, flow, slot⟩ := there
  obtain ⟨q, stored, rated⟩ := (Option.any_eq_true _ _).mp rated
  have reachable : System.Reachable .plain anyCall s := ⟨0, run⟩
  obtain ⟨-, starts, reached⟩ := dry_keys_pass reachable (show quiet.attested = true from rfl)
    oneJob_valid stored unthrottled
  refine ⟨s, reachable, starts ⟨fun rate h => ?_, ?_, attempts⟩
    (reached e member (Option.isNone_iff_eq_none.mp flow) (Option.isNone_iff_eq_none.mp slot))⟩
  · simp [h] at rated
  · rw [aging]
    exact fun _ _ _ _ => rfl

/-- Behind 21 dry jobs it is not, although it is ready and nothing else holds the claim back. -/
theorem dry_keys_pass_behind_more : ∃ (s : System) (q : Queue) (id : Uuid) (job : Job),
    System.Reachable .plain anyCall s ∧ s.db.queues.get? "q" = some q ∧ q.pausedAt = none ∧
    s.db.queueFlow.get? "q" = none ∧ 0 < oneJob.granted quiet s.db ∧
    s.db.jobs.get? id = some job ∧ claimable quiet s.db.toCore oneJob.args job.toJobRow = true ∧
    job.flowKey = none ∧ job.concurrencyKey = none ∧ oneJob.Valid ∧ ¬oneJob.Starts quiet s.db := by
  have played : System.plays .plain (behindDry 21) (.installed .plain 0) (fun s =>
    (oneJob.run quiet s.db).toOption.any fun claimed => claimed.1.jobs.isEmpty &&
      (s.db.queues.get? "q").any (·.pausedAt = none) && s.db.queueFlow.get? "q" = none &&
      0 < oneJob.granted quiet s.db &&
      (oneJob.lineup quiet s.db).any fun e => e.2.flowKey.isNone && e.2.concurrencyKey.isNone) = true := by decide +kernel
  obtain ⟨s, answer, db', reachable, run, there⟩ := ClaimCall.of_plays
    (p := fun db answer _ => answer.jobs.isEmpty && (db.queues.get? "q").any (·.pausedAt = none) &&
      db.queueFlow.get? "q" = none && 0 < oneJob.granted quiet db &&
      (oneJob.lineup quiet db).any fun e => e.2.flowKey.isNone && e.2.concurrencyKey.isNone) played
  simp only [Bool.and_eq_true, decide_eq_true_eq, List.isEmpty_iff, List.any_eq_true] at there
  obtain ⟨⟨⟨⟨nobody, going⟩, calm⟩, unthrottled⟩, ⟨id, job⟩, member, flow, slot⟩ := there
  obtain ⟨q, stored, going⟩ := (Option.any_eq_true _ _).mp going
  obtain ⟨here, good⟩ := mem_lineup.mp member
  simp only [eligible, Bool.and_eq_true] at good
  refine ⟨s, q, id, job, reachable, stored, by simpa using going, calm, unthrottled, here, good.1.1.1.1,
    Option.isNone_iff_eq_none.mp flow, Option.isNone_iff_eq_none.mp slot, oneJob_valid, ?_⟩
  rintro ⟨answer', _, run', some'⟩
  cases run.symm.trans run'
  exact some' nobody

end Taskq
