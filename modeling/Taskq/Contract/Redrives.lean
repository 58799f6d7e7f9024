import Taskq.Contract.DryKeys
import Taskq.Lifecycle.Redrives

/-! What becomes of redriven jobs: a claim can take them before their time to live has passed, and a bulk redrive gets
to as many of them as stand among the first of its failed jobs. -/
namespace Taskq
open Relational

section Run

variable {env env' : Env} {id : Uuid} {job : Job} {db db' : Db}

/-- A redrive that reported success for this job. -/
inductive Redrives (env : Env) (id : Uuid) (db db' : Db) : Prop
  | single {actor : Option String} {resetProgress : Bool} (run : redriveJob env id actor resetProgress db = .ok db')
  | bulk {queue : String} {limit smear : Option ℤ} {actor : Option String} {counts : ℤ × ℤ} {job job' : Job}
      (run : redriveFailed env queue limit actor smear db = .ok (counts, db'))
      (stored : db.jobs.get? id = some job) (failed : job.status = .failed)
      (stored' : db'.jobs.get? id = some job') (queued : job'.status = .queued)

/-- The columns that decide whether a redriven job runs. -/
structure Revived (job job' : Job) : Prop where
  status : job'.status = .queued
  unasked : job'.cancelRequestedAt = none
  single : job'.workflowId = none
  queue : job'.queue = job.queue
  expiresAt : job'.expiresAt = job.expiresAt
  attemptCount : job'.attemptCount = job.attemptCount

theorem deadLetters_failed (queue : String) (db : Db) : FailedIn queue db (deadLetters queue db.toCore) := by
  intro id member
  obtain ⟨⟨_, job⟩, there, rfl⟩ := List.mem_map.mp member
  obtain ⟨stored, good⟩ := Table.mem_selectBy.mp there
  simp only [decide_eq_true_eq] at good
  exact ⟨job, stored, good.2, good.1⟩

theorem deadLetters_nodup (queue : String) (core : Core) : (deadLetters queue core).Nodup :=
  Table.selectBy_keys_nodup _ _ _

theorem Redrives.row (redrives : Redrives env id db db') (ok : Sound db.toCore) :
    ∃ job job', db.jobs.get? id = some job ∧ db'.jobs.get? id = some job' ∧ Revived job job' := by
  cases redrives with
  | single run =>
    obtain ⟨job, job', stored, free, -, -, row, jobs⟩ := redriveJob_done run
    refine ⟨job, job', stored, by rw [jobs, Table.get?_put_self], ?_⟩
    constructor <;> rw [row]
    · rfl
    · rfl
    · exact free.2.1
    · rfl
    · rfl
    · rfl
  | @bulk queue limit smear actor counts job job' run stored failed stored' queued =>
    simp only [redriveFailed, seq_eq_ok] at run
    obtain ⟨-, -, -, -, loop⟩ := run
    obtain ⟨done, last, total, -, -, rows, single, -⟩ := redriveAll_total env actor (smear.getD 0) ok
      ((deadLetters_nodup queue db.toCore).sublist (List.take_sublist _ _))
      fun other member => deadLetters_failed queue db other (List.mem_of_mem_take member)
    cases total.symm.trans loop
    have row := rows id
    rw [stored, stored', Option.map_some, Option.map_some, Option.some.injEq] at row
    refine ⟨job, job', stored, stored', ?_⟩
    split_ifs at row with mine
    · obtain ⟨_, found, alone⟩ := single id mine
      cases stored.symm.trans found
      constructor <;> rw [row]
      · rfl
      · rfl
      · exact alone
      · rfl
      · rfl
      · rfl
    · rw [row, failed] at queued
      cases queued

/-- A worker's claim that asks for one job. -/
def claimOf (queue : String) (id : Uuid) : ClaimCall := ⟨{ ClaimArgs.simple queue 1 with jobId := some id }, some []⟩

theorem claimOf_valid (queue : String) (id : Uuid) : (claimOf queue id).Valid :=
  ⟨rfl, rfl, rfl, rfl, rfl, by simp [claimOf]⟩

/-- A claim of the job is held back by nothing but the job: its queue runs and has a token and a free slot, and so have
the keys of the job. -/
structure Welcome (env : Env) (id : Uuid) (job : Job) (db : Db) : Prop where
  attested : env.attested = true
  unlocked : env.locked id = false
  queue : ∃ q, db.queues.get? job.queue = some q ∧ TokensFit env job.queue q db
  unthrottled : 0 < (claimOf job.queue id).granted env db
  keys : (db.room env).serves (id, job) = true

/-- A claim of the job gets it. -/
def Takes (env : Env) (id : Uuid) (job : Job) (db : Db) : Prop :=
  ∃ answer db', (claimOf job.queue id).run env db = .ok (answer, db') ∧ answer.jobs.map (·.jobId) = [id]

/-- The job may be claimed at this moment, as far as its row says. -/
theorem claimOf_lineup (stored : db.jobs.get? id = some job) (queued : job.status = .queued)
    (unasked : job.cancelRequestedAt = none) (single : job.workflowId = none) (welcome : Welcome env id job db)
    (due : job.scheduledAt ≤ env.now) :
    (claimOf job.queue id).lineup env db = if job.expiresAt.all (env.now < ·) then [(id, job)] else [] := by
  have policy : job.continuationPolicyHash = none := by
    obtain ⟨-, member, -, -⟩ := job.checks_parts
    simp only [JobRow.memberShape, Bool.and_eq_true, single, Option.isSome_none, Bool.or_false] at member
    exact Option.isNone_iff_eq_none.mp member.2
  have good : claimable env db.toCore (claimOf job.queue id).args job.toJobRow = job.expiresAt.all (env.now < ·) := by
    simp [claimable, claimOf, ClaimArgs.simple, queued, unasked, single, workflowCancelled, due]
  have free : job.concurrencyKey.any (saturatedKey db) = false := eq_false_of_ne_true fun full => by
    have none : (db.room env).serves (id, job) = false := Room.full env db full
    rw [welcome.keys] at none
    cases none
  have line : (claimOf job.queue id).lineup env db = ((target env (claimOf job.queue id).args [] db.toCore id).filter
      fun j => !j.concurrencyKey.any (saturatedKey db)).toList.map fun j => (id, j) := lineup_target rfl db.toCore none
  rw [line]
  unfold target
  rw [stored, Option.filter_some, good, policy, welcome.unlocked]
  split_ifs with timely <;> simp_all

theorem claimOf_serves (stored : db.jobs.get? id = some job) (queued : job.status = .queued)
    (unasked : job.cancelRequestedAt = none) (single : job.workflowId = none) (welcome : Welcome env id job db)
    (due : job.scheduledAt ≤ env.now) {n : ℤ} (positive : 0 < n) :
    (claimOf job.queue id).serves env db n = if job.expiresAt.all (env.now < ·) then [(id, job)] else [] := by
  unfold ClaimCall.serves
  rw [claimOf_lineup stored queued unasked single welcome due]
  obtain ⟨k, rfl⟩ : ∃ k : ℕ, n = k + 1 := ⟨(n - 1).toNat, by omega⟩
  have scans : ((k : ℤ) + 1 + 20).toNat = k + 21 := by omega
  have wanted : ((k : ℤ) + 1).toNat = k + 1 := by omega
  split_ifs <;> simp [served, serve, scans, wanted, welcome.keys]

/-- Once it is due a redriven job is taken exactly until its time to live has passed, as long as its attempts can be
counted. -/
theorem takes_iff {site : Site} {t : System} (reachable : System.Reachable site anyCall t)
    (stored : t.db.jobs.get? id = some job) (queued : job.status = .queued) (unasked : job.cancelRequestedAt = none)
    (single : job.workflowId = none) (welcome : Welcome env id job t.db) (due : job.scheduledAt ≤ env.now) :
    Takes env id job t.db ↔ job.expiresAt.all (env.now < ·) = true ∧ job.attemptCount < 32767 := by
  have serves {n : ℤ} (positive : 0 < n) := claimOf_serves stored queued unasked single welcome due positive
  constructor
  · rintro ⟨answer, db', run, ids⟩
    obtain ⟨none, -⟩ | ⟨n, entered, looped, unseen, low, high, loop, -⟩ := ClaimCall.run_loops run
    · simp [none] at ids
    · have own := (ClaimCall.loop_served unseen reachable.rated low high loop).1
      have count := (ClaimCall.loop_total unseen reachable.sound reachable.rated (by exact fun _ _ _ _ => rfl) low high).mp
        ⟨_, loop⟩
      rw [serves (by omega)] at own count
      split_ifs at own count with timely
      · exact ⟨timely, count _ List.mem_cons_self⟩
      · rw [ids] at own
        cases own
  · rintro ⟨timely, count⟩
    obtain ⟨q, queue, tokens⟩ := welcome.queue
    have line := claimOf_lineup stored queued unasked single welcome due
    rw [if_pos timely] at line
    have served := serves welcome.unthrottled
    rw [if_pos timely] at served
    have starts : (claimOf job.queue id).Starts env t.db :=
      ClaimCall.reaches_starts reachable welcome.attested (claimOf_valid job.queue id) queue welcome.unthrottled
        ⟨tokens, fun _ _ _ _ => rfl, by rw [served]; simpa using count⟩
        ⟨(id, job), by
          rw [line]
          have := welcome.unthrottled
          obtain ⟨k, same⟩ : ∃ k : ℕ, ((claimOf job.queue id).granted env t.db + 20).toNat = k + 1 :=
            ⟨((claimOf job.queue id).granted env t.db + 19).toNat, by omega⟩
          rw [same]
          exact List.mem_cons_self, welcome.keys⟩
    obtain ⟨answer, db', run, -⟩ := starts
    have ids := (ClaimCall.outcome run reachable.rated).serves
    rw [served] at ids
    exact ⟨answer, db', run, ids⟩

/-- As long as the row of a redriven job is as the redrive left it, a claim that nothing else holds back takes it from its
instant on, and no tick settles it, exactly until the time to live from its admission has passed. -/
theorem redriven_jobs_run {site : Site} {s t : System} (reachable : System.Reachable site anyCall s)
    (later : System.Reachable site anyCall t) {job' : Job} (redrives : Redrives env id s.db db')
    (stored : s.db.jobs.get? id = some job) (stored' : db'.jobs.get? id = some job')
    (untouched : t.db.jobs.get? id = some job') (due : job'.scheduledAt ≤ env'.now) (welcome : Welcome env' id job' t.db) :
    Takes env' id job' t.db ∧ id ∉ ttlExpired env' t.db.toCore ↔
      job.expiresAt.all (env'.now < ·) = true ∧ job.attemptCount < 32767 := by
  obtain ⟨j, j', found, found', revived⟩ := redrives.row reachable.sound
  cases stored.symm.trans found
  cases stored'.symm.trans found'
  have takes := takes_iff later untouched revived.status revived.unasked revived.single welcome due
  rw [takes, revived.expiresAt, revived.attemptCount]
  refine and_iff_left_of_imp fun ⟨timely, _⟩ swept => ?_
  obtain ⟨⟨_, j⟩, there, rfl⟩ := List.mem_map.mp swept
  obtain ⟨here, good⟩ := Table.mem_selectBy.mp there
  cases untouched.symm.trans here
  simp only [decide_eq_true_eq] at good
  rw [revived.expiresAt] at good
  cases expires : job.expiresAt with
  | none => simp [expires] at good
  | some expiry =>
    simp only [expires, Option.all_some, decide_eq_true_eq] at timely
    have past : expiry ≤ env'.now := by simpa [expires] using good.2.1
    exact absurd timely (not_lt.mpr past)

/-- Nothing holds back a claim of the job. -/
def welcomes (env : Env) (id : Uuid) (job : Job) (db : Db) : Bool :=
  env.attested && !env.locked id && (db.queues.get? job.queue).any (·.claimRatePerMinute.isNone) &&
    decide (0 < (claimOf job.queue id).granted env db) && (db.room env).serves (id, job)

theorem welcomes_iff (fine : welcomes env id job db = true) : Welcome env id job db := by
  unfold welcomes at fine
  simp only [Bool.and_eq_true, decide_eq_true_eq, Bool.not_eq_true'] at fine
  obtain ⟨⟨⟨⟨attested, unlocked⟩, queue⟩, unthrottled⟩, keys⟩ := fine
  obtain ⟨q, there, unrated⟩ := (Option.any_eq_true _ _).mp queue
  exact ⟨attested, unlocked, ⟨q, there, fun rate rated => by simp [rated] at unrated⟩, unthrottled, keys⟩

/-- A job with this many seconds to live is claimed and fails at once. -/
def deadLetter (ttl : ℤ) : List (Time × Command) :=
  [(0, .ensureQueue (some "q") none), (0, .enqueue { EnqueueArgs.simple "q" with ttlSeconds := some ttl }),
    (0, .claimJobs (.simple "q" 1)), (0, .failJob 2 3 (some "w") (some "boom") (some false) none none none)]

/-- Two minutes later it is redriven. -/
def afterwards : Env := .alone .plain 120000000 9

/-- The redrive leaves the job as the test says, and nothing else in its way. -/
def redriveLeaves (p : Job → Job → Bool) (s : System) : Bool :=
  s.xid < 9 && match redriveJob afterwards 2 (some "op") false s.db with
    | .ok db => (s.db.jobs.get? 2).any fun old => (db.jobs.get? 2).any fun new =>
        welcomes afterwards 2 new db && new.scheduledAt ≤ afterwards.now && p old new
    | .error _ => false

theorem redrive_played {ttl : ℤ} {p : Job → Job → Bool}
    (played : System.plays .plain (deadLetter ttl) (.installed .plain 0) (redriveLeaves p) = true) :
    ∃ (s t : System) (old new : Job), System.Reachable .plain anyCall s ∧ System.Reachable .plain anyCall t ∧
      redriveJob afterwards 2 (some "op") false s.db = .ok t.db ∧ s.db.jobs.get? 2 = some old ∧
      t.db.jobs.get? 2 = some new ∧ new.scheduledAt ≤ afterwards.now ∧ Welcome afterwards 2 new t.db ∧ p old new = true := by
  obtain ⟨s, run, there⟩ := System.plays_run anyCall played fun _ _ _ => trivial
  unfold redriveLeaves at there
  rw [Bool.and_eq_true, decide_eq_true_eq] at there
  obtain ⟨early, there⟩ := there
  split at there
  · rename_i db redriven
    obtain ⟨old, stored, there⟩ := (Option.any_eq_true _ _).mp there
    obtain ⟨new, stored', there⟩ := (Option.any_eq_true _ _).mp there
    simp only [Bool.and_eq_true, decide_eq_true_eq] at there
    obtain ⟨⟨welcome, due⟩, good⟩ := there
    have step : System.Step .plain afterwards (.redriveJob 2 (some "op") false) s
        ⟨db, afterwards.now, afterwards.xid, s.admitted ++ newJobs s.db db⟩ := .commit rfl early redriven
    exact ⟨s, _, old, new, ⟨0, run⟩, ⟨0, run.step trivial step⟩, redriven, stored, stored', due, welcomes_iff welcome, good⟩
  · cases there

/-- A job that may live for an hour is taken after its redrive. -/
theorem redriven_jobs_run_in_time : ∃ (s t : System) (new : Job), System.Reachable .plain anyCall s ∧
    redriveJob afterwards 2 (some "op") false s.db = .ok t.db ∧ t.db.jobs.get? 2 = some new ∧
    Takes afterwards 2 new t.db ∧ 2 ∉ ttlExpired afterwards t.db.toCore := by
  have played : System.plays .plain (deadLetter 3600) (.installed .plain 0) (redriveLeaves fun old _ =>
      old.expiresAt.all (afterwards.now < ·) && old.attemptCount < 32767) = true := by decide +kernel
  obtain ⟨s, t, old, new, reachable, later, run, stored, stored', due, welcome, good⟩ := redrive_played played
  simp only [Bool.and_eq_true, decide_eq_true_eq] at good
  obtain ⟨takes, kept⟩ := (redriven_jobs_run reachable later (.single run) stored stored' stored' due welcome).mpr good
  exact ⟨s, t, new, reachable, run, stored', takes, kept⟩

/-- A job that could live for a minute is redriven with success after two, and no claim gets it: the next tick settles it
as expired. -/
theorem redriven_jobs_expire : ∃ (s t : System) (new : Job), System.Reachable .plain anyCall s ∧
    redriveJob afterwards 2 (some "op") false s.db = .ok t.db ∧ t.db.jobs.get? 2 = some new ∧
    new.scheduledAt ≤ afterwards.now ∧ Welcome afterwards 2 new t.db ∧
    ¬Takes afterwards 2 new t.db ∧ 2 ∈ ttlExpired afterwards t.db.toCore := by
  have played : System.plays .plain (deadLetter 60) (.installed .plain 0) (redriveLeaves fun _ new =>
      new.status = .queued && new.cancelRequestedAt = none && new.workflowId = none &&
        new.expiresAt = some 60000000) = true := by decide +kernel
  obtain ⟨s, t, old, new, reachable, later, run, stored, stored', due, welcome, good⟩ := redrive_played played
  simp only [Bool.and_eq_true, decide_eq_true_eq] at good
  obtain ⟨⟨⟨queued, unasked⟩, single⟩, expires⟩ := good
  refine ⟨s, t, new, reachable, run, stored', due, welcome, fun takes => ?_, ?_⟩
  · have timely := ((takes_iff later stored' queued unasked single welcome due).mp takes).1
    rw [expires] at timely
    exact absurd timely (by decide)
  · refine List.mem_map.mpr ⟨(2, new), Table.mem_selectBy.mpr ⟨stored', ?_⟩, rfl⟩
    have past : afterwards.locked 2 = false := rfl
    simp only [decide_eq_true_eq, unstarted, queued, expires, past]
    decide

end Run

section Drain

variable {env : Env} {id : Uuid} {queue : String} {actor : Option String} {limit smear : ℤ} {db db' : Db} {done : List Uuid}

/-- Up to `n` failed jobs of the queue can be redriven one after the other. -/
def Capacity (env : Env) (actor : Option String) (queue : String) (db : Db) (n : ℕ) : Prop :=
  IsGreatest {n | ∃ order db', order ⊆ deadLetters queue db.toCore ∧ order.length = n ∧
    inTurn env actor order db = .ok db'} n

/-- A bulk redrive redrives as many jobs as the limit and their number allow, changes no other job, and leaves the rest to
further calls. -/
def Drains (env : Env) (queue : String) (limit : ℤ) (actor : Option String) (smear : ℤ) (db : Db) (n : ℕ) : Prop :=
  ∃ done skipped db', redriveFailed env queue (some limit) actor (some smear) db = .ok ((done.length, skipped), db') ∧
    done.Nodup ∧ done ⊆ deadLetters queue db.toCore ∧ (done.length : ℤ) = min limit n ∧ Redriven env smear done db db' ∧
    Capacity env actor queue db' (n - done.length)

/-- Every failed job that the limit reaches can be redriven, with a key of its own; or no job behind them can be redriven
that has not a key of one of them. -/
def Unclogged (queue : String) (limit : ℕ) (db : Db) : Prop :=
  let first := (deadLetters queue db.toCore).take limit
  let rest := (deadLetters queue db.toCore).drop limit
  (redrivable db first = first ∧ (first.map (slot db)).Nodup) ∨ ∀ id ∈ redrivable db rest, slot db id ∈ slots db first

theorem slots_append (db : Db) (first rest : List Uuid) : slots db (first ++ rest) = slots db first ∪ slots db rest := by
  simp [slots, redrivable, List.filter_append, List.toFinset_append]

theorem slots_card_le (db : Db) (ids : List Uuid) : (slots db ids).card ≤ (redrivable db ids).length := by
  simpa [slots] using List.toFinset_card_le ((redrivable db ids).map (slot db))

theorem redrivable_length_le (db : Db) (ids : List Uuid) : (redrivable db ids).length ≤ ids.length :=
  List.length_filter_le _ _

/-- The first jobs have as many slots as the limit and all jobs allow exactly when nothing clogs the queue. -/
theorem unclogged_iff (queue : String) (limit : ℕ) (db : Db) :
    (slots db ((deadLetters queue db.toCore).take limit)).card = min limit (slots db (deadLetters queue db.toCore)).card ↔
      Unclogged queue limit db := by
  have split := slots_append db ((deadLetters queue db.toCore).take limit) ((deadLetters queue db.toCore).drop limit)
  rw [List.take_append_drop] at split
  have short : ((deadLetters queue db.toCore).take limit).length = min limit (deadLetters queue db.toCore).length :=
    List.length_take
  have whole := redrivable_length_le db (deadLetters queue db.toCore)
  have few := slots_card_le db (deadLetters queue db.toCore)
  unfold Unclogged
  dsimp only
  generalize (deadLetters queue db.toCore).take limit = first at *
  generalize (deadLetters queue db.toCore).drop limit = rest at *
  have some' := redrivable_length_le db first
  have card := slots_card_le db first
  have sub : slots db first ⊆ slots db (deadLetters queue db.toCore) := split ▸ Finset.subset_union_left
  have mono := Finset.card_le_card sub
  constructor
  · intro same
    by_cases enough : limit ≤ (slots db (deadLetters queue db.toCore)).card
    · left
      have all : redrivable db first = first := List.filter_sublist.eq_of_length (by
        change (redrivable db first).length = first.length
        omega)
      refine ⟨all, ?_⟩
      have full : (first.map (slot db)).dedup.length = (first.map (slot db)).length := by
        rw [← List.card_toFinset, List.length_map]
        rw [slots, all] at same card
        omega
      exact List.dedup_eq_self.mp ((List.dedup_sublist _).eq_of_length full)
    · right
      have equal : slots db first = slots db (deadLetters queue db.toCore) :=
        Finset.eq_of_subset_of_card_le sub (by omega)
      intro id member
      rw [equal, split]
      exact Finset.mem_union_right _ (List.mem_toFinset.mpr (List.mem_map_of_mem member))
  · rintro (⟨all, distinct⟩ | covered)
    · have full : (slots db first).card = first.length := by
        rw [slots, all, List.toFinset_card_of_nodup distinct, List.length_map]
      omega
    · have equal : slots db (deadLetters queue db.toCore) = slots db first := by
        rw [split, Finset.union_eq_left]
        intro x member
        obtain ⟨id, there, rfl⟩ := List.mem_map.mp (List.mem_toFinset.mp member)
        exact covered id there
      rw [equal]
      omega

theorem capacity_iff (ok : Sound db.toCore) (n : ℕ) :
    Capacity env actor queue db n ↔ n = (slots db (deadLetters queue db.toCore)).card :=
  have greatest := slots_greatest env actor ok (deadLetters_nodup queue db.toCore) (deadLetters_failed queue db)
  ⟨fun capacity => capacity.unique greatest, fun same => same ▸ greatest⟩

theorem mem_deadLetters : id ∈ deadLetters queue db.toCore ↔
    ∃ job, db.jobs.get? id = some job ∧ job.queue = queue ∧ job.status = .failed := by
  simp only [deadLetters, List.mem_map, Prod.exists, Table.mem_selectBy, decide_eq_true_eq]
  constructor
  · rintro ⟨_, job, ⟨stored, good⟩, rfl⟩
    exact ⟨job, stored, good⟩
  · rintro ⟨job, stored, good⟩
    exact ⟨id, job, ⟨stored, good⟩, rfl⟩

/-- The failed jobs after a bulk redrive were failed jobs before it. -/
theorem slots_left (rows : Redriven env smear done db db') :
    slots db' (deadLetters queue db'.toCore) = slots db' (deadLetters queue db.toCore) := by
  have kept {id : Uuid} {j : Job} (stored : db'.jobs.get? id = some j) : ∃ job, db.jobs.get? id = some job ∧
      j.queue = job.queue ∧ (j.status = .failed → job.status = .failed) := by
    have row := rows id
    rw [stored, Option.map_some] at row
    obtain ⟨job, found, same⟩ := Option.map_eq_some_iff.mp row.symm
    refine ⟨job, found, ?_, fun failed => ?_⟩
    · rw [← same]
      split_ifs <;> rfl
    · rw [← same] at failed
      split_ifs at failed
      · cases failed
      · exact failed
  ext x
  rw [mem_slots, mem_slots]
  constructor
  · rintro ⟨id, member, j, stored, free, rfl⟩
    obtain ⟨_, found, own, -⟩ := mem_deadLetters.mp member
    cases stored.symm.trans found
    obtain ⟨job, before, queue, dead⟩ := kept stored
    exact ⟨id, mem_deadLetters.mpr ⟨job, before, queue ▸ own, dead free.1⟩, j, stored, free, rfl⟩
  · rintro ⟨id, member, j, stored, free, rfl⟩
    obtain ⟨job, before, own, -⟩ := mem_deadLetters.mp member
    obtain ⟨job', before', queue, -⟩ := kept stored
    cases before.symm.trans before'
    exact ⟨id, mem_deadLetters.mpr ⟨j, stored, queue.trans own, free.1⟩, j, stored, free, rfl⟩

/-- A bulk redrive drains as many failed jobs as it may exactly when nothing clogs the queue. -/
theorem redrive_failed_drains {site : Site} {s : System} (reachable : System.Reachable site anyCall s) (env : Env)
    (queue : String) (actor : Option String) {limit smear : ℤ} (allowed : 1 ≤ limit ∧ limit ≤ 500)
    (smears : 0 ≤ smear ∧ smear ≤ 86400) :
    ∃ n, Capacity env actor queue s.db n ∧
      (Drains env queue limit actor smear s.db n ↔ Unclogged queue limit.toNat s.db) := by
  have ok := reachable.sound
  have all : FailedIn queue s.db (deadLetters queue s.db.toCore) := deadLetters_failed queue s.db
  obtain ⟨done, db', loop, sub, count, rows, -, left⟩ := redriveAll_total env actor smear ok
    ((deadLetters_nodup queue s.db.toCore).sublist (List.take_sublist limit.toNat _))
    fun id member => all id (List.mem_of_mem_take member)
  have run : redriveFailed env queue (some limit) actor (some smear) s.db = .ok ((done.length, _), db') :=
    seq_eq_ok.mpr ⟨(), ensure_eq_ok.mpr (by simpa using allowed), seq_eq_ok.mpr ⟨(), ensure_eq_ok.mpr (by simpa using smears),
      loop⟩⟩
  refine ⟨_, (capacity_iff ok _).mpr rfl, ?_⟩
  rw [← unclogged_iff queue limit.toNat s.db, ← count]
  constructor
  · rintro ⟨done', skipped, last, run', -, -, many, -⟩
    have answer := Except.ok.inj (run.symm.trans run')
    have length : (done.length : ℤ) = done'.length := congrArg (fun r => r.1.1) answer
    omega
  · intro many
    refine ⟨done, _, db', run, (deadLetters_nodup queue s.db.toCore).sublist (sub.trans (List.take_sublist _ _)),
      fun id member => List.mem_of_mem_take (sub.subset member), by omega, rows, ?_⟩
    rw [capacity_iff (ok.steps (redriveFailed_path run).steps), slots_left rows, left _ all.within,
      Finset.card_sdiff_of_subset, count]
    intro x member
    obtain ⟨id, there, rest⟩ := mem_slots.mp member
    exact mem_slots.mpr ⟨id, List.mem_of_mem_take there, rest⟩

/-- Two jobs fail, the second with a key. -/
def twoDead : List (Time × Command) :=
  [(0, .ensureQueue (some "q") none), (0, .enqueue (.simple "q")), (0, .claimJobs (.simple "q" 1)),
    (0, .failJob 2 3 (some "w") (some "boom") (some false) none none none),
    (1000000, .enqueue { EnqueueArgs.simple "q" with idempotencyKey := some "k" }),
    (1000000, .claimJobs (.simple "q" 1)),
    (1000000, .failJob 4 5 (some "w") (some "boom") (some false) none none none)]

/-- Both are redriven by one call. -/
theorem redrive_failed_drains_two : ∃ (s : System) (n : ℕ), System.Reachable .plain anyCall s ∧
    Capacity afterwards (some "op") "q" s.db n ∧ Drains afterwards "q" 500 (some "op") 0 s.db n := by
  have played : System.plays .plain twoDead (.installed .plain 0) (fun s =>
      let first := (deadLetters "q" s.db.toCore).take 500
      redrivable s.db first = first && (first.map (slot s.db)).Nodup) = true := by decide +kernel
  obtain ⟨s, run, there⟩ := System.plays_run anyCall played fun _ _ _ => trivial
  simp only [Bool.and_eq_true, decide_eq_true_eq] at there
  have reachable : System.Reachable .plain anyCall s := ⟨0, run⟩
  obtain ⟨n, capacity, drains⟩ := redrive_failed_drains reachable afterwards "q" (some "op") (by decide : 1 ≤ (500 : ℤ) ∧ _)
    (by decide : 0 ≤ (0 : ℤ) ∧ _)
  exact ⟨s, n, reachable, capacity, drains.mpr (.inl there)⟩

/-- A live job takes over the key of the second. -/
def keyTaken : List (Time × Command) :=
  twoDead ++ [(1000000, .enqueue { EnqueueArgs.simple "q" with idempotencyKey := some "k" })]

/-- The second job cannot be redriven while its key is taken, and a bulk redrive of one job does not get past it. -/
theorem redrive_failed_clogs : ∃ s : System, System.Reachable .plain anyCall s ∧
    Capacity afterwards (some "op") "q" s.db 1 ∧ ¬Drains afterwards "q" 1 (some "op") 0 s.db 1 := by
  have played : System.plays .plain keyTaken (.installed .plain 0) (fun s =>
      (slots s.db (deadLetters "q" s.db.toCore)).card = 1 &&
        match redriveFailed afterwards "q" (some 1) (some "op") (some 0) s.db with
        | .ok (answer, _) => answer = (0, 1)
        | .error _ => false) = true := by decide +kernel
  obtain ⟨s, run, there⟩ := System.plays_run anyCall played fun _ _ _ => trivial
  rw [Bool.and_eq_true, decide_eq_true_eq] at there
  obtain ⟨one, nothing⟩ := there
  have reachable : System.Reachable .plain anyCall s := ⟨0, run⟩
  refine ⟨s, reachable, (capacity_iff reachable.sound 1).mpr one.symm, ?_⟩
  rintro ⟨done, skipped, db', drained, -, -, many, -⟩
  rw [drained] at nothing
  have none : ((done.length : ℤ), skipped) = (0, 1) := of_decide_eq_true nothing
  have length : (done.length : ℤ) = 0 := congrArg Prod.fst none
  rw [length] at many
  exact absurd many (by decide)

end Drain

end Taskq
