import Taskq.Claiming.Served
import Taskq.Library.TokenBucket

/-! The stock that a claim serves its lineup from: free slots of concurrency keys and tokens of flow
keys. -/
namespace Taskq
open Relational

section Frames

variable {env : Env} {args : ClaimArgs} {id : Uuid} {old : Job} {new : JobRow} {db db' : Db}

/-- A write that settles nothing leaves the breaker alone. -/
theorem writeJob_open (run : writeJob env id old new db = .ok db')
    (live : new.status ≠ .failed ∧ new.status ≠ .succeeded) :
    ∃ job counts counters, job.toJobRow = new ∧ db' = { db with
      jobs := db.jobs.put id job, memberCounts := counts, queueCounters := counters } := by
  simp only [writeJob, seq_eq_ok, ensure_eq_ok, storeJob_eq_ok, live.1, live.2, or_self, false_and,
    decide_false, Bool.false_eq_true, if_false] at run
  obtain ⟨-, -, job, ⟨-, rfl⟩, -, -, _, settled, counts, counted, done⟩ := run
  cases settled
  cases done
  obtain ⟨counters, frame⟩ := countUpdated_frame env old.toJobRow job.toJobRow (db.putJob id job)
  rw [frame]
  exact ⟨job, counts, counters, rfl, rfl⟩

/-- What the start of an attempt leaves behind. -/
theorem startAttempt_frame {claimed : ClaimedJob}
    (run : startAttempt env args id old db = .ok (claimed, db')) :
    claimed.jobId = id ∧ ∃ (job : Job) (attempts : Table Uuid Attempt) (counts : Table Uuid MemberCounts)
      (counters : Table String QueueCounters) (events : List Event), job.status = .running ∧
      job.identity = old.identity ∧ db' = { db with
        jobs := db.jobs.put id job, attempts := attempts, memberCounts := counts
        nextUuid := db.nextUuid + 1, queueCounters := counters, events := events } := by
  simp only [startAttempt, newUuid, seq_eq_ok] at run
  obtain ⟨written, write, opened, insert, last, event, finish⟩ := run
  cases finish
  rw [emitEvent_quiet (by decide) (by decide)] at event
  cases event
  simp only [insertAttempt, seq_eq_ok, ensure_eq_ok] at insert
  obtain ⟨-, -, -, -, done⟩ := insert
  cases done
  obtain ⟨job, counts, counters, same, rfl⟩ := writeJob_open write (by simp)
  exact ⟨rfl, job, _, counts, counters, _, by rw [same], by rw [same]; rfl, rfl⟩

end Frames

/-- Free slots by concurrency key, and tokens by flow key where the key is limited. -/
@[ext] structure Room where
  slots : String → ℤ
  tokens : String → Option ℤ

namespace Room

/-- The job's concurrency key has a free slot, and its flow key a token. -/
def serves (room : Room) (candidate : Uuid × Job) : Bool :=
  candidate.2.concurrencyKey.all (fun key => 0 < room.slots key) &&
    candidate.2.flowKey.all fun key => (room.tokens key).all (0 < ·)

/-- The job takes a slot and a token. -/
def take (room : Room) (candidate : Uuid × Job) : Room where
  slots key := room.slots key - one (candidate.2.concurrencyKey = some key)
  tokens key := (room.tokens key).map (· - one (candidate.2.flowKey = some key))

end Room

section Room

variable {env : Env} {args : ClaimArgs} {id : Uuid} {job : Job} {db db' : Db}

/-- The tokens that a flow key still gives one after the other, when the tokens of its bucket end at all: an interval of less than
half a microsecond is none. -/
def keyTokens (env : Env) (limit : FlowLimit) (stored : Option ℚ) : Option ℤ :=
  let t := emissionInterval env.toSite limit.ratePerMinute
  stepsLeft (t * (limit.burst.getD limit.ratePerMinute) - t - (clampedTat env stored - env.now) / 1000000)
    (env.arithmetic.interval t / 1000000)

/-- What a claim can take now, other transactions holding the locks that they hold. -/
def Db.room (env : Env) (db : Db) : Room where
  slots key :=
    if env.tryLock ("taskq.ck:" ++ key) then concurrencyCap db key - runningWithKey db.toCore key else 0
  tokens key := (db.flowLimits.get? key).bind fun limit =>
    if env.tryLock ("taskq.fk:" ++ key) then keyTokens env limit ((db.flowState.get? key).getD none) else some 0

/-- Every registered flow key has a rate. -/
def Db.Rated (db : Db) : Prop := ∀ key limit, db.flowLimits.get? key = some limit → 0 < limit.ratePerMinute

theorem emissionInterval_pos (site : Site) {rate : ℤ} (positive : 0 < rate) : 0 < emissionInterval site rate :=
  Arithmetic.divide_pos (by norm_num) (by exact_mod_cast positive)

theorem clampedTat_charged (env : Env) (stored : Option ℚ) {charge : ℚ} (nonneg : 0 ≤ charge) :
    clampedTat env (some (clampedTat env stored + charge)) = clampedTat env stored + charge :=
  max_eq_left ((le_max_right _ _).trans (le_add_of_nonneg_right nonneg))

theorem keyTokens_pos (env : Env) {limit : FlowLimit} (rated : 0 < limit.ratePerMinute) (stored : Option ℚ) :
    (keyTokens env limit stored).all (0 < ·) = true ↔ ¬(emissionInterval env.toSite limit.ratePerMinute *
      (limit.burst.getD limit.ratePerMinute : ℤ) - emissionInterval env.toSite limit.ratePerMinute <
        (clampedTat env stored - env.now) / 1000000) := by
  have step : 0 ≤ env.arithmetic.interval (emissionInterval env.toSite limit.ratePerMinute) / 1000000 :=
    div_nonneg (env.arithmetic.interval_nonneg (emissionInterval_pos _ rated).le) (by norm_num)
  rw [keyTokens, stepsLeft_pos step, sub_neg]

/-- Taking one token leaves one less. -/
theorem keyTokens_taken {limit : FlowLimit} (rated : 0 < limit.ratePerMinute) {stored : Option ℚ}
    (wet : ¬(emissionInterval env.toSite limit.ratePerMinute * (limit.burst.getD limit.ratePerMinute : ℤ) -
      emissionInterval env.toSite limit.ratePerMinute < (clampedTat env stored - env.now) / 1000000)) :
    keyTokens env limit (some (clampedTat env stored +
      env.arithmetic.interval (emissionInterval env.toSite limit.ratePerMinute))) =
      (keyTokens env limit stored).map (· - 1) := by
  have nonneg := env.arithmetic.interval_nonneg (emissionInterval_pos env.toSite rated).le
  rw [keyTokens, keyTokens, clampedTat_charged env stored nonneg]
  rw [← stepsLeft_sub (div_nonneg nonneg (by norm_num)) (sub_nonneg.mpr (not_lt.mp wet))]
  congr 1
  ring

/-- One token of a key, when it has one. -/
theorem flowKeyAdmit_serves (env : Env) (rated : db.Rated) (key : String) :
    ((flowKeyAdmit env key db).1 = ((db.room env).tokens key).all (0 < ·)) ∧
    ∀ other, (Db.room env (flowKeyAdmit env key db).2).tokens other =
      ((db.room env).tokens other).map
        (· - one ((flowKeyAdmit env key db).1 && decide (key = other))) := by
  unfold flowKeyAdmit
  cases found : db.flowLimits.get? key with
  | none =>
    refine ⟨by simp [Db.room, found], fun other => ?_⟩
    by_cases same : key = other
    · simp [Db.room, ← same, found]
    · simp [same, one]
  | some limit =>
    have positive := rated key limit found
    by_cases lock : env.tryLock ("taskq.fk:" ++ key) = true
    · simp only [lock, not_true_eq_false, if_false]
      have dry := keyTokens_pos env positive ((db.flowState.get? key).getD none)
      split_ifs with refused
      · refine ⟨?_, fun other => ?_⟩
        · simp only [Db.room, found, lock, if_true, Option.bind_some]
          exact (eq_false_of_ne_true (mt dry.mp (not_not.mpr refused))).symm
        · by_cases same : key = other
          · subst same
            simp [Db.room, found, one]
          · simp [Db.room, Table.get?_put_of_ne _ _ (Ne.symm same), one]
      · refine ⟨?_, fun other => ?_⟩
        · simp only [Db.room, found, lock, if_true, Option.bind_some]
          exact (dry.mpr refused).symm
        · by_cases same : key = other
          · subst same
            simp [Db.room, found, lock, one, keyTokens_taken positive refused]
          · simp [Db.room, Table.get?_put_of_ne _ _ (Ne.symm same), one, same]
    · simp only [lock]
      refine ⟨by simp [Db.room, found, lock], fun other => by simp [one]⟩

theorem flowKeyAdmit_slots (key : String) :
    (Db.room env (flowKeyAdmit env key db).2).slots = (db.room env).slots := by
  obtain ⟨keys, frame⟩ := flowKeyAdmit_frame env key db
  rw [frame]
  rfl

/-- The gates of a candidate are what the stock says, and a refusal takes nothing. -/
theorem admitCandidate_serves (env : Env) (rated : db.Rated) (id : Uuid) (job : Job) :
    ((admitCandidate env job.toJobRow db).1 = (db.room env).serves (id, job)) ∧
    (Db.room env (admitCandidate env job.toJobRow db).2).slots = (db.room env).slots ∧
    ∀ key, (Db.room env (admitCandidate env job.toJobRow db).2).tokens key =
      ((db.room env).tokens key).map
        (· - one ((admitCandidate env job.toJobRow db).1 && decide (job.flowKey = some key))) := by
  have slot : (job.concurrencyKey.all fun key => env.tryLock ("taskq.ck:" ++ key) &&
      decide ((runningWithKey db.toCore key : ℤ) < concurrencyCap db key)) =
        job.concurrencyKey.all fun key => decide (0 < (db.room env).slots key) := by
    cases job.concurrencyKey with
    | none => rfl
    | some key =>
      simp only [Option.all_some, Db.room]
      split_ifs with lock <;> simp [lock]
  simp only [admitCandidate, Room.serves, slot]
  by_cases free : (job.concurrencyKey.all fun key => decide (0 < (db.room env).slots key)) = true
  · rw [if_neg (not_not.mpr free), free]
    cases flow : job.flowKey with
    | none => simp [one]
    | some key =>
      obtain ⟨answer, tokens⟩ := flowKeyAdmit_serves env rated key
      refine ⟨by simpa using answer, flowKeyAdmit_slots key, fun other => ?_⟩
      simpa using tokens other
  · rw [if_pos free]
    refine ⟨by simp [free], rfl, fun key => by simp [one]⟩

theorem admitCandidate_queueFlow (env : Env) (row : JobRow) (db : Db) :
    (admitCandidate env row db).2.queueFlow = db.queueFlow := by
  unfold admitCandidate
  dsimp only
  split
  · rfl
  · split
    · rfl
    · obtain ⟨keys, frame⟩ := flowKeyAdmit_frame env _ db
      rw [frame]

/-- A refusal leaves the stock as it was. -/
theorem admitCandidate_refuses (rated : db.Rated) (refused : (admitCandidate env job.toJobRow db).1 = false) :
    Db.room env (admitCandidate env job.toJobRow db).2 = db.room env := by
  obtain ⟨-, slots, tokens⟩ := admitCandidate_serves env rated 0 job
  refine Room.ext slots (funext fun key => ?_)
  rw [tokens, refused]
  simp [one]

/-- A job that starts takes its slot and its token. -/
theorem startAttempt_takes {claimed : ClaimedJob} (rated : db.Rated)
    (admitted : (admitCandidate env job.toJobRow db).1 = true) (stored : db.jobs.get? id = some job)
    (idle : job.status ≠ .running)
    (run : startAttempt env args id job (admitCandidate env job.toJobRow db).2 = .ok (claimed, db')) :
    db'.room env = (db.room env).take (id, job) := by
  obtain ⟨serves, slots, tokens⟩ := admitCandidate_serves env rated id job
  obtain ⟨core, settings, -⟩ := admitCandidate_aside env job.toJobRow db
  obtain ⟨-, started, _, _, _, _, running, kept, rfl⟩ := startAttempt_frame run
  generalize (admitCandidate env job.toJobRow db).2 = mid at *
  refine Room.ext (funext fun key => ?_) (funext fun key => ?_)
  · have before := congrFun slots key
    have here : mid.jobs.get? id = some job := by rw [core]; exact stored
    have same : started.concurrencyKey = job.concurrencyKey := congrArg Identity.concurrencyKey kept
    have count := Table.count_put_of_get? here started
      fun _ j => decide (j.status = .running ∧ j.concurrencyKey = some key)
    simp only [running, idle, same, false_and, true_and, decide_false, Bool.false_eq_true, if_false,
      add_zero, decide_eq_true_eq] at count
    simp only [Db.room, Room.take, runningWithKey, concurrencyCap] at before ⊢
    rw [count, ← before]
    by_cases wants : job.concurrencyKey = some key
    · split_ifs with lock
      · simp [one, wants]
        ring
      · rw [admitted] at serves
        simp [Room.serves, wants, Db.room, lock] at serves
    · simp [one, wants]
  · rw [show (Db.room env { mid with
        jobs := mid.jobs.put id started, attempts := _, memberCounts := _
        nextUuid := mid.nextUuid + 1, queueCounters := _, events := _ }).tokens key =
      (mid.room env).tokens key from rfl, tokens, admitted]
    simp [Room.take]

end Room

section Loop

variable {env : Env} {args : ClaimArgs} {prefers : Preference} {saturated : String → Bool}
  {pick : Scan → Core → Call (Option (Uuid × Job) × Scan)} {scan : Scan} {scans : ℕ} {wanted : ℤ}
  {jobs : List ClaimedJob} {db db' : Db}

theorem Db.Rated.congr (rated : db.Rated) (same : db'.flowLimits = db.flowLimits) : db'.Rated := by
  unfold Db.Rated
  rw [same]
  exact rated

/-- The candidates that a claim serves, in order. -/
def served (room : Room) (scans : ℕ) (wanted : ℤ) (candidates : List (Uuid × Job)) : List (Uuid × Job) :=
  serve Room.serves Room.take scans wanted.toNat room candidates

theorem served_cons (room : Room) (candidate : Uuid × Job) (candidates : List (Uuid × Job))
    (more : 0 < wanted) : served room (scans + 1) wanted (candidate :: candidates) =
      if room.serves candidate then
        candidate :: served (room.take candidate) scans (wanted - 1) candidates
      else served room scans wanted candidates := by
  have next : wanted.toNat = (wanted - 1).toNat + 1 := by omega
  simp only [served, next]
  exact serve_cons candidate

/-- The loop starts the jobs that the stock serves from the lineup. -/
theorem claimLoop_served (picks : Picks env args pick) (follows : Follows env args prefers saturated pick)
    (rated : db.Rated) (run : claimLoop env args pick scans wanted scan db = .ok (jobs, db')) :
    jobs.map (·.jobId) = (served (db.room env) scans wanted
      (lineup env args prefers saturated scan db.toCore)).map Prod.fst ∧
    db'.queueFlow = db.queueFlow := by
  induction scans generalizing wanted scan db jobs with
  | zero =>
    cases run
    exact ⟨by simp [served], rfl⟩
  | succ scans ih =>
    unfold claimLoop at run
    split at run
    · rename_i enough
      cases run
      exact ⟨by simp [served, Int.toNat_of_nonpos enough], rfl⟩
    · rename_i more
      obtain ⟨⟨candidate, scan'⟩, picked, run⟩ := seq_eq_ok.mp run
      obtain ⟨first, same⟩ := follows picked
      rw [← same] at first ⊢
      generalize lines : lineup env args prefers saturated scan' db.toCore = line at first ⊢
      cases line with
      | nil =>
        subst first
        cases run
        exact ⟨by simp [served], rfl⟩
      | cons head rest =>
        obtain ⟨id, job⟩ := head
        rw [List.head?_cons] at first
        subst first
        obtain ⟨stored, good⟩ := picks picked
        obtain ⟨queued, -, -⟩ := claimable_iff good
        obtain ⟨core, settings, -⟩ := admitCandidate_aside env job.toJobRow db
        have limits : (admitCandidate env job.toJobRow db).2.flowLimits = db.flowLimits :=
          congrArg (fun s => s.2.2.2.1) settings
        have flows := admitCandidate_queueFlow env job.toJobRow db
        obtain ⟨serves, -, -⟩ := admitCandidate_serves env rated id job
        rw [served_cons _ _ _ (not_le.mp more), ← serves]
        dsimp only at run
        split at run
        · rename_i admitted
          simp only [seq_eq_ok] at run
          obtain ⟨⟨claimed, started⟩, start, ⟨others, last⟩, loop, finish⟩ := run
          cases finish
          have taken := startAttempt_takes rated admitted stored (by simp [queued]) start
          obtain ⟨own, row, attempts, counts, counters, events, running, -, frame⟩ := startAttempt_frame start
          have limits' : started.flowLimits = db.flowLimits := by rw [frame]; exact limits
          have flows' : started.queueFlow = db.queueFlow := by rw [frame]; exact flows
          have rows : started.jobs = db.jobs.put id row := by rw [frame, ← core]
          have workflows : started.workflows = db.workflows := by rw [frame, ← core]
          obtain ⟨ids, kept⟩ := ih (rated.congr limits') loop
          rw [taken, lineup_start lines rows running workflows] at ids
          rw [if_pos admitted]
          exact ⟨by simp [own, ids], kept.trans flows'⟩
        · rename_i refused
          have idle := eq_false_of_ne_true refused
          obtain ⟨ids, kept⟩ := ih (rated.congr limits) run
          rw [admitCandidate_refuses rated idle, core, lineup_skip lines] at ids
          rw [if_neg refused]
          exact ⟨ids, kept.trans flows⟩

end Loop

end Taskq
