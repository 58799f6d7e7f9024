import Taskq.Invariants.Identifiers

/-! Attempts: the ledger and the rows of `jobs` tell the same story in every state. -/
namespace Taskq
open Relational

namespace Life

/-- A job has an attempt and a lease exactly while it runs. -/
def Shaped (l : Life) : Prop :=
  (l.status = .running ↔ l.attempt.isSome = true) ∧ (l.status = .running ↔ l.leased = true)

variable {max : ℤ} {k : Change} {l l' : Life}

theorem Step.shaped (step : Step max k l l') (shaped : l.Shaped) : l'.Shaped := by
  obtain ⟨current, lease⟩ := shaped
  cases step with
  | withdraw _ _ _ idle =>
    obtain idle | idle | ⟨idle, -⟩ := idle <;> simp_all [Shaped]
  | promote _ blocked =>
    have idle : ∀ s, (if l.pendingDeps = 1 then JobStatus.queued else .blocked) = s → s ≠ .running := by
      rintro s rfl
      split_ifs <;> simp
    simp_all [Shaped]
  | _ => simp_all [Shaped, ended, failedOnce]

/-- A change either ends the attempt or leaves it. -/
theorem Step.attempt (step : Step max k l l') (plain : k ≠ .start) :
    l'.attempt = if k.closes.isSome then none else l.attempt := by
  cases step <;> simp_all [Change.closes, ended, failedOnce]

theorem Step.attemptCount (step : Step max k l l') (plain : k ≠ .start) :
    l'.attemptCount = l.attemptCount := by
  cases step <;> simp_all [ended, failedOnce]

theorem Step.start_inv (step : Step max .start l l') :
    l.status = .queued ∧ l'.attempt.isSome = true ∧ l'.attemptCount = l.attemptCount + 1 := by
  cases step
  exact ⟨by assumption, rfl, rfl⟩

end Life

/-- The number of attempts of a job in the ledger. -/
def attemptsOf (t : Table Uuid Attempt) (id : Uuid) : ℕ := t.count fun _ a => a.jobId = id

theorem attemptsOf_congr {t u : Table Uuid Attempt} {id : Uuid}
    (same : ∀ a, (∃ s, ledgerEntry t a = some (id, s)) ↔ ∃ s, ledgerEntry u a = some (id, s)) :
    attemptsOf t id = attemptsOf u id := by
  have owned (t : Table Uuid Attempt) (a : Uuid) : (∃ r, t.get? a = some r ∧
      decide (r.jobId = id) = true) ↔ ∃ s, ledgerEntry t a = some (id, s) := by
    simp only [ledgerEntry, Attempt.entry, Option.map_eq_some_iff, Prod.mk.injEq, decide_eq_true_eq]
    constructor
    · rintro ⟨r, here, own⟩
      exact ⟨r.status, r, here, own, rfl⟩
    · rintro ⟨s, r, here, own, -⟩
      exact ⟨r, here, own⟩
  exact Table.count_congr fun a => by rw [owned, owned, same]

/-- The ledger agrees with the jobs: entries belong to stored jobs, a job's running entry is its
current attempt, and `attempt_count` counts its entries. -/
structure LedgerOk (c : Core) : Prop where
  owned : ∀ a id s, ledgerEntry c.attempts a = some (id, s) →
    a < c.nextUuid ∧ c.jobs.get? id ≠ none
  shaped : ∀ id job, c.jobs.get? id = some job → job.life.Shaped
  current : ∀ id job, c.jobs.get? id = some job →
    ∀ a, job.currentAttemptId = some a ↔ ledgerEntry c.attempts a = some (id, .running)
  counted : ∀ id job, c.jobs.get? id = some job → job.attemptCount = attemptsOf c.attempts id

namespace LedgerOk

variable {c : Core} {id attempt : Uuid} {old job : Job} {m : Table Uuid MemberCounts} {k : Change}
  {t : Table Uuid Attempt}

theorem currentAttempt (ok : LedgerOk c) (stored : c.jobs.get? id = some old)
    (current : old.currentAttemptId = some attempt) :
    ledgerEntry c.attempts attempt = some (id, .running) :=
  (ok.current id old stored attempt).mp current

/-- What a change leaves of the ledger: the same owners, and the closed attempt runs no more. -/
theorem ledgerMoves (ok : LedgerOk c) (stored : c.jobs.get? id = some old)
    (moves : LedgerMoves k old.toJobRow c.attempts t) :
    (∀ a id', (∃ s, ledgerEntry t a = some (id', s)) ↔ ∃ s, ledgerEntry c.attempts a = some (id', s)) ∧
    ∀ a id', ledgerEntry t a = some (id', .running) ↔
      ledgerEntry c.attempts a = some (id', .running) ∧
        ¬(k.closes.isSome = true ∧ old.currentAttemptId = some a) := by
  unfold LedgerMoves at moves
  split at moves
  · rename_i open'
    have same := moves
    exact ⟨fun a id' => by rw [same a], fun a id' => by simp [same a, open']⟩
  · rename_i status closes
    obtain ⟨attempt, current, closed⟩ := moves
    have running := ok.currentAttempt stored current
    have final : status ≠ .running := by
      cases k <;> simp_all [Change.closes] <;> simp [← closes]
    refine ⟨fun a id' => ?_, fun a id' => ?_⟩ <;> rw [closed a] <;> split_ifs with own
    · subst own
      simp [running, closedEntry]
    · rfl
    · subst own
      simp [running, closedEntry, closes, current, final]
    · simp [current, Ne.symm own]

/-- What a change keeps of the row that it rewrites and of the ledger. -/
theorem change (ok : LedgerOk c) (row : RowWrite c id old job m) (plain : k ≠ .start)
    (step : Life.Step old.maxAttempts k old.life job.life)
    (moves : LedgerMoves k old.toJobRow c.attempts t) {deps : Finset (Uuid × Uuid)} :
    LedgerOk { c with
      jobs := c.jobs.put id job, memberCounts := m, attempts := t, deps := deps } := by
  obtain ⟨owners, running⟩ := ok.ledgerMoves row.stored moves
  refine ⟨fun a id' s entry => ?_, fun id' job' here => ?_, fun id' job' here a => ?_,
    fun id' job' here => ?_⟩
  · obtain ⟨s', before⟩ := (owners a id').mp ⟨s, entry⟩
    obtain ⟨minted, stored⟩ := ok.owned a id' s' before
    refine ⟨minted, ?_⟩
    rw [Table.get?_put]
    split_ifs
    · simp
    · exact stored
  · rw [Table.get?_put] at here
    split_ifs at here with own
    · cases here
      exact step.shaped (ok.shaped id old row.stored)
    · exact ok.shaped id' job' here
  · rw [Table.get?_put] at here
    rw [running]
    split_ifs at here with own
    · cases here
      have after : job.currentAttemptId = if k.closes.isSome then none else old.currentAttemptId :=
        step.attempt plain
      rw [own, after, ← ok.current id old row.stored a]
      split_ifs with closes <;> simp [closes]
    · rw [ok.current id' job' here a, iff_self_and]
      rintro entry ⟨-, current⟩
      have mine := ok.currentAttempt row.stored current
      exact own (congrArg Prod.fst (Option.some.inj (entry.symm.trans mine)))
  · rw [Table.get?_put] at here
    rw [attemptsOf_congr fun a => owners a id']
    split_ifs at here with own
    · cases here
      subst own
      exact (step.attemptCount plain).trans (ok.counted _ old row.stored)
    · exact ok.counted id' job' here

theorem start (ok : LedgerOk c) (row : RowWrite c id old job m) {a : Attempt}
    (step : Life.Step old.maxAttempts .start old.life job.life)
    (current : job.currentAttemptId = some attempt) (opened : a.entry = (id, .running))
    (fresh : ledgerEntry c.attempts attempt = none) (minted : attempt < c.nextUuid)
    (alone : ∀ b, ledgerEntry c.attempts b ≠ some (id, .running)) :
    LedgerOk { c with
      jobs := c.jobs.put id job, memberCounts := m, attempts := c.attempts.put attempt a } := by
  refine ⟨fun b id' s entry => ?_, fun id' job' here => ?_, fun id' job' here b => ?_,
    fun id' job' here => ?_⟩
  · rw [ledgerEntry_put, opened] at entry
    rw [Table.get?_put]
    split_ifs at entry with own
    · cases entry
      simpa [own] using minted
    · obtain ⟨minted, stored⟩ := ok.owned b id' s entry
      refine ⟨minted, ?_⟩
      split_ifs
      · simp
      · exact stored
  · rw [Table.get?_put] at here
    split_ifs at here with own
    · cases here
      exact step.shaped (ok.shaped id old row.stored)
    · exact ok.shaped id' job' here
  · rw [Table.get?_put] at here
    rw [ledgerEntry_put, opened]
    split_ifs at here with own
    · cases here
      rw [own, current]
      split_ifs with same
      · simp [same]
      · simp [Ne.symm same, alone b]
    · rw [ok.current id' job' here b]
      split_ifs with same
      · simp [same, fresh, Ne.symm own]
      · rfl
  · have gone : c.attempts.get? attempt = none := by simpa [ledgerEntry] using fresh
    have owner : a.jobId = id := congrArg Prod.fst opened
    rw [Table.get?_put] at here
    rw [attemptsOf, Table.count_put, Table.remove_of_get?_eq_none gone, owner]
    split_ifs at here with own
    · cases here
      subst own
      have before := ok.counted _ old row.stored
      have after : job.attemptCount = old.attemptCount + 1 := step.start_inv.2.2
      rw [after, before, attemptsOf]
      simp
    · have before := ok.counted id' job' here
      rw [before, attemptsOf]
      simp [Ne.symm own]

/-- Deleting the attempts of a job leaves the entries of the others. -/
theorem ledgerEntry_keep {t : Table Uuid Attempt} {a : Uuid} {e : Uuid × AttemptStatus} :
    ledgerEntry (t.keep fun _ a => a.jobId ≠ id) a = some e ↔ ledgerEntry t a = some e ∧ e.1 ≠ id := by
  simp only [ledgerEntry, Table.get?_keep, Option.map_eq_some_iff, Option.filter_eq_some_iff]
  constructor
  · rintro ⟨r, ⟨here, apart⟩, rfl⟩
    exact ⟨⟨r, here, rfl⟩, by simpa [Attempt.entry] using apart⟩
  · rintro ⟨⟨r, here, rfl⟩, apart⟩
    exact ⟨r, ⟨here, by simpa [Attempt.entry] using apart⟩, rfl⟩

theorem delete (ok : LedgerOk c) :
    LedgerOk { c with
      jobs := c.jobs.remove id, memberCounts := m
      attempts := c.attempts.keep fun _ a => a.jobId ≠ id
      deps := c.deps.filter fun e => e.1 ≠ id } := by
  have entries (a : Uuid) (e : Uuid × AttemptStatus) :
      ledgerEntry (c.attempts.keep fun _ a => a.jobId ≠ id) a = some e ↔
        ledgerEntry c.attempts a = some e ∧ e.1 ≠ id := ledgerEntry_keep
  have kept {id' : Uuid} {job' : Job} (here : (c.jobs.remove id).get? id' = some job') :
      id' ≠ id ∧ c.jobs.get? id' = some job' := by
    rw [Table.get?_remove] at here
    split_ifs at here with own
    exact ⟨own, here⟩
  refine ⟨fun a id' s entry => ?_, fun id' job' here => ok.shaped id' job' (kept here).2,
    fun id' job' here a => ?_, fun id' job' here => ?_⟩
  · obtain ⟨before, apart⟩ := (entries _ _).mp entry
    refine (ok.owned a id' s before).imp_right fun stored => ?_
    rw [Table.get?_remove, if_neg apart]
    exact stored
  · rw [entries, ok.current id' job' (kept here).2 a]
    simp [(kept here).1]
  · rw [ok.counted id' job' (kept here).2, attemptsOf_congr fun a => ?_]
    simp only [entries, ne_eq, (kept here).1, not_false_eq_true, and_true]

theorem enter (ok : LedgerOk c) (fresh : c.jobs.get? id = none) {status : JobStatus} {pending : ℤ}
    (idle : status ≠ .running) (born : job.life = .fresh status pending)
    {deps : Finset (Uuid × Uuid)} :
    LedgerOk { c with jobs := c.jobs.put id job, memberCounts := m, deps := deps } := by
  have nobody (a : Uuid) (s : AttemptStatus) : ledgerEntry c.attempts a ≠ some (id, s) :=
    fun entry => (ok.owned a id s entry).2 fresh
  refine ⟨fun a id' s entry => ?_, fun id' job' here => ?_, fun id' job' here a => ?_,
    fun id' job' here => ?_⟩
  · refine (ok.owned a id' s entry).imp_right fun stored => ?_
    rw [Table.get?_put]
    split_ifs
    · simp
    · exact stored
  · rw [Table.get?_put] at here
    split_ifs at here with own
    · cases here
      simp [born, Life.Shaped, Life.fresh, idle]
    · exact ok.shaped id' job' here
  · rw [Table.get?_put] at here
    split_ifs at here with own
    · cases here
      have none : job.currentAttemptId = none := congrArg Life.attempt born
      simp [own, none, nobody a]
    · exact ok.current id' job' here a
  · rw [Table.get?_put] at here
    split_ifs at here with own
    · cases here
      have none : attemptsOf c.attempts id = 0 := by
        refine Table.count_eq_zero.mpr fun a r stored => ?_
        have := nobody a r.status
        simp only [ledgerEntry, stored, Option.map_some, Attempt.entry] at this
        simpa using this
      have zero : job.attemptCount = 0 := congrArg Life.attemptCount born
      rw [own, none, zero]
      rfl
    · exact ok.counted id' job' here

/-- Every transition keeps the ledger in order. -/
theorem step {l : Label} {c d : Core} (ok : LedgerOk c) (h : Transition l c d) : LedgerOk d := by
  cases h with
  | mint =>
    exact ⟨fun a id s entry => (ok.owned a id s entry).imp_left fun minted => Nat.lt_succ_of_lt minted,
      ok.shaped, ok.current, ok.counted⟩
  | start row step current opened fresh latest alone =>
    exact ok.start row step current opened fresh (latest ▸ Nat.lt_succ_self _) alone
  | change plain row step ledger => exact ok.change row plain.1 step ledger
  | promote edge row step =>
    exact ok.change row (by simp) step (show LedgerMoves .promote _ _ _ from SameLedger.refl _)
  | delete stored => exact ok.delete
  | enter fresh minted range born => exact ok.enter fresh (by split_ifs <;> simp) born
  | dropEdge | reserve | createWorkflow | changeWorkflow =>
    exact ⟨ok.owned, ok.shaped, ok.current, ok.counted⟩

end LedgerOk

theorem System.Reachable.ledgerOk {site : Site} {allowed : System → Env → Command → Prop} {s : System}
    (reachable : System.Reachable site allowed s) : LedgerOk s.db.toCore :=
  reachable.core (fun _ => ⟨by simp [Db.installed, ledgerEntry], by simp [Db.installed],
    by simp [Db.installed], by simp [Db.installed]⟩) fun ok h => ok.step h

section History

/-- A job that is still there was there before, and so are its attempts, with the same final
status. -/
def LedgerKept (id : Uuid) (c d : Core) : Prop :=
  d.jobs.get? id ≠ none → c.jobs.get? id ≠ none ∧ ∀ a s, ledgerEntry c.attempts a = some (id, s) →
    ∃ s', ledgerEntry d.attempts a = some (id, s') ∧ (s ≠ .running → s' = s)

variable {id : Uuid} {c d e : Core} {l : Label}

theorem LedgerKept.refl (c : Core) : LedgerKept id c c :=
  fun here => ⟨here, fun _ s entry => ⟨s, entry, fun _ => rfl⟩⟩

theorem LedgerKept.trans (first : LedgerKept id c d) (second : LedgerKept id d e) :
    LedgerKept id c e := by
  intro here
  obtain ⟨between, later⟩ := second here
  obtain ⟨before, earlier⟩ := first between
  refine ⟨before, fun a s entry => ?_⟩
  obtain ⟨s', entry', same⟩ := earlier a s entry
  obtain ⟨s'', entry'', same'⟩ := later a s' entry'
  exact ⟨s'', entry'', fun final => (same' (same final ▸ final)).trans (same final)⟩

theorem LedgerKept.of_entries (rows : d.jobs.get? id ≠ none → c.jobs.get? id ≠ none)
    (entries : ∀ a s, ledgerEntry c.attempts a = some (id, s) →
      ∃ s', ledgerEntry d.attempts a = some (id, s') ∧ (s ≠ .running → s' = s)) :
    LedgerKept id c d := fun here => ⟨rows here, entries⟩

theorem LedgerMoves.entries {k : Change} {old : JobRow} {t u : Table Uuid Attempt}
    (moves : LedgerMoves k old t u) (a : Uuid) (s : AttemptStatus)
    (entry : ledgerEntry t a = some (id, s)) :
    ∃ s', ledgerEntry u a = some (id, s') ∧ (s ≠ .running → s' = s) := by
  unfold LedgerMoves at moves
  split at moves
  · exact ⟨s, (moves a).trans entry, fun _ => rfl⟩
  · obtain ⟨attempt, -, closed⟩ := moves
    rw [closed a, entry]
    split_ifs
    · exact ⟨_, rfl, fun final => by simp [final]⟩
    · exact ⟨s, rfl, fun _ => rfl⟩

theorem stored_of_put {t : Table Uuid Job} {id other : Uuid} {old job : Job}
    (stored : t.get? id = some old) (here : (t.put id job).get? other ≠ none) :
    t.get? other ≠ none := by
  rw [Table.get?_put] at here
  split_ifs at here with same
  · simp [same, stored]
  · exact here

theorem Transition.ledgerKept (h : Transition l c d) (apart : ∀ parent, l ≠ .enter id parent) :
    LedgerKept id c d := by
  have quiet (a : Uuid) (s : AttemptStatus) (entry : ledgerEntry c.attempts a = some (id, s)) :
      ∃ s', ledgerEntry c.attempts a = some (id, s') ∧ (s ≠ .running → s' = s) :=
    ⟨s, entry, fun _ => rfl⟩
  cases h with
  | start row step current opened fresh =>
    refine .of_entries (stored_of_put row.stored) fun a s entry => ?_
    rw [ledgerEntry_put, if_neg fun same => nomatch (same ▸ entry).symm.trans fresh]
    exact quiet a s entry
  | change _ row _ ledger => exact .of_entries (stored_of_put row.stored) ledger.entries
  | promote _ row => exact .of_entries (stored_of_put row.stored) quiet
  | @delete victim old m stored =>
    intro here
    rw [Table.get?_remove] at here
    split_ifs at here with own
    · exact absurd rfl here
    refine ⟨here, fun a s entry => ⟨s, ?_, fun _ => rfl⟩⟩
    obtain ⟨r, there, owner⟩ := Option.map_eq_some_iff.mp entry
    have job : r.jobId = id := congrArg Prod.fst owner
    simp only [ledgerEntry, Table.get?_keep, there, Option.filter_some, job]
    simpa [own] using owner
  | enter =>
    refine .of_entries (fun here => ?_) quiet
    rw [Table.get?_put] at here
    split_ifs at here with same
    · exact absurd (by rw [same]) (apart _)
    · exact here
  | mint | dropEdge | reserve | createWorkflow | changeWorkflow => exact .refl _

/-- The same over any run, for every job whose id was already handed out. -/
theorem System.Run.ledgerKept {site : Site} {allowed : System → Env → Command → Prop} {s t : System}
    (run : System.Run site allowed s t) (minted : id < s.db.nextUuid) :
    LedgerKept id s.db.toCore t.db.toCore := by
  refine (run.induction (I := fun t => s.db.nextUuid ≤ t.db.nextUuid ∧
    LedgerKept id s.db.toCore t.db.toCore) ⟨le_rfl, .refl _⟩ fun {t u env command} ih _ next => ?_).2
  obtain ⟨above, kept⟩ := ih
  obtain ⟨F, used, steps⟩ := next.steps
  refine ⟨above.trans steps.nextUuid_le, kept.trans ?_⟩
  refine steps.relates .refl .trans fun member h => h.ledgerKept fun parent same => ?_
  subst same
  exact absurd (Command.footprints_enter used member) (Nat.not_le.mpr (minted.trans_le above))

end History

end Taskq
