import Taskq.Invariants.Budget
import Taskq.Invariants.Sound

/-! Expired leases: the streak of a job counts attempts that expired one after another, and a call
records an attempt as expired only when it may expire the lease of the job. -/
namespace Taskq
open Relational

section Rows

/-- The last attempts of a job, `n` of them, expired: what started after one of them is one of them
too, was released, or still runs. Ids are handed out in the order in which attempts start. -/
def ExpiredInARow (t : Table Uuid Attempt) (id : Uuid) (n : ℕ) : Prop :=
  ∃ E : Finset Uuid, E.card = n ∧ (∀ a ∈ E, ledgerEntry t a = some (id, .expired)) ∧
    ∀ a ∈ E, ∀ b s, a < b → ledgerEntry t b = some (id, s) → b ∈ E ∨ s = .released ∨ s = .running

namespace ExpiredInARow

variable {t u : Table Uuid Attempt} {id attempt : Uuid} {n : ℕ}

theorem zero (t : Table Uuid Attempt) (id : Uuid) : ExpiredInARow t id 0 :=
  ⟨∅, rfl, fun _ none' => absurd none' (Finset.notMem_empty _), fun _ none' => absurd none' (Finset.notMem_empty _)⟩

theorem congr (row : ExpiredInARow t id n)
    (same : ∀ a s, ledgerEntry u a = some (id, s) ↔ ledgerEntry t a = some (id, s)) : ExpiredInARow u id n := by
  obtain ⟨E, card, expired, later⟩ := row
  exact ⟨E, card, fun a member => (same a _).mpr (expired a member),
    fun a member b s after entry => later a member b s after ((same b s).mp entry)⟩

theorem started (row : ExpiredInARow t id n) {a : Attempt} (opened : a.entry = (id, .running))
    (fresh : ledgerEntry t attempt = none) : ExpiredInARow (t.put attempt a) id n := by
  obtain ⟨E, card, expired, later⟩ := row
  refine ⟨E, card, fun b member => ?_, fun b member b' s after entry => ?_⟩
  · have other : b ≠ attempt := by
      rintro rfl
      cases fresh.symm.trans (expired b member)
    rw [ledgerEntry_put, if_neg other]
    exact expired b member
  · rw [ledgerEntry_put, opened] at entry
    split_ifs at entry
    · cases entry
      exact .inr (.inr rfl)
    · exact later b member b' s after entry

theorem released (row : ExpiredInARow t id n) (running : ledgerEntry t attempt = some (id, .running))
    (closed : ClosesEntry attempt .released t u) : ExpiredInARow u id n := by
  obtain ⟨E, card, expired, later⟩ := row
  refine ⟨E, card, fun a member => ?_, fun a member b s after entry => ?_⟩
  · have other : a ≠ attempt := by
      rintro rfl
      cases running.symm.trans (expired a member)
    rw [closed a, if_neg other]
    exact expired a member
  · rw [closed b] at entry
    split_ifs at entry with own
    · rw [own, running] at entry
      cases entry
      exact .inr (.inl rfl)
    · exact later a member b s after entry

/-- The attempt that started last expires as well. -/
theorem expired (row : ExpiredInARow t id n) (running : ledgerEntry t attempt = some (id, .running))
    (latest : ∀ b s, ledgerEntry t b = some (id, s) → b ≤ attempt)
    (closed : ClosesEntry attempt .expired t u) : ExpiredInARow u id (n + 1) := by
  obtain ⟨E, card, expired, later⟩ := row
  have other {a : Uuid} (member : a ∈ E) : a ≠ attempt := by
    rintro rfl
    cases running.symm.trans (expired a member)
  have ended : ledgerEntry u attempt = some (id, .expired) := by
    rw [closed attempt, if_pos rfl, running]
    rfl
  refine ⟨insert attempt E, ?_, fun a member => ?_, fun a member b s after entry => ?_⟩
  · rw [Finset.card_insert_of_notMem fun member => other member rfl, card]
  · obtain rfl | member := Finset.mem_insert.mp member
    · exact ended
    · rw [closed a, if_neg (other member)]
      exact expired a member
  · by_cases own : b = attempt
    · exact .inl (Finset.mem_insert.mpr (.inl own))
    · rw [closed b, if_neg own] at entry
      obtain rfl | member := Finset.mem_insert.mp member
      · exact absurd (latest b s entry) (not_le.mpr after)
      · exact (later a member b s after entry).imp_left fun member => Finset.mem_insert.mpr (.inr member)

end ExpiredInARow

end Rows

section Streaks

/-- How a change other than a start moves the streak. -/
theorem Life.Step.streak {max : ℤ} {k : Change} {l l' : Life} (step : Life.Step max k l l') (plain : k ≠ .start) :
    l'.expiryStreak = 0 ∨ (l'.status = .cancelled ∧ l'.expiryStreak = l.expiryStreak) ∨
    (l'.expiryStreak = l.expiryStreak ∧ (k.closes = none ∨ k.closes = some .released) ∧
      (l.status = .cancelled → l'.status = .cancelled)) ∨
    (l'.expiryStreak = l.expiryStreak + 1 ∧ k.closes = some .expired ∧ l.status = .running) := by
  cases step with
  | cancelRunning _ _ _ streaks =>
    obtain kept | reset := streaks
    · exact .inr (.inl ⟨rfl, kept⟩)
    · exact .inl reset
  | _ => simp_all [Change.closes, ended, failedOnce]

/-- The streak of a job is a number of attempts that expired in a row, and its attempt is the last
to have started. A cancelled job keeps the streak that it had. -/
structure StreakOk (t : Table Uuid Attempt) (id : Uuid) (job : JobRow) : Prop where
  latest : ∀ a, job.currentAttemptId = some a → ∀ b s, ledgerEntry t b = some (id, s) → b ≤ a
  positive : 0 ≤ job.expiryStreak
  counted : job.status ≠ .cancelled → ExpiredInARow t id job.expiryStreak.toNat

def StreaksOk (c : Core) : Prop := ∀ id job, c.jobs.get? id = some job → StreakOk c.attempts id job.toJobRow

variable {c d : Core} {id attempt : Uuid} {old job : Job} {m : Table Uuid MemberCounts} {k : Change} {l : Label}
  {t u : Table Uuid Attempt}

theorem StreakOk.congr {row : JobRow} (ok : StreakOk t id row)
    (same : ∀ a s, ledgerEntry u a = some (id, s) ↔ ledgerEntry t a = some (id, s)) : StreakOk u id row :=
  ⟨fun a current b s entry => ok.latest a current b s ((same b s).mp entry), ok.positive,
    fun going => (ok.counted going).congr same⟩

/-- A change of one job leaves the entries of the others. -/
theorem LedgerOk.others (ledger : LedgerOk c) (stored : c.jobs.get? id = some old)
    (moves : LedgerMoves k old.toJobRow c.attempts t) {other : Uuid} (apart : other ≠ id) (a : Uuid)
    (s : AttemptStatus) : ledgerEntry t a = some (other, s) ↔ ledgerEntry c.attempts a = some (other, s) := by
  unfold LedgerMoves at moves
  split at moves
  · rw [moves a]
  · obtain ⟨attempt, current, closed⟩ := moves
    rw [closed a]
    split_ifs with own
    · rw [own, ledger.currentAttempt stored current]
      simp [closedEntry, Ne.symm apart]
    · rfl

theorem StreakOk.change (ledger : LedgerOk c) (ok : StreakOk c.attempts id old.toJobRow)
    (stored : c.jobs.get? id = some old) (plain : k ≠ .start)
    (step : Life.Step old.maxAttempts k old.life job.life) (moves : LedgerMoves k old.toJobRow c.attempts t) :
    StreakOk t id job.toJobRow := by
  have positive := ok.positive
  have left : job.currentAttemptId = if k.closes.isSome then none else old.currentAttemptId := step.attempt plain
  unfold LedgerMoves at moves
  refine ⟨fun a current b s entry => ?_, ?_, fun going => ?_⟩
  · rw [left] at current
    split_ifs at current with closes
    rw [Option.not_isSome_iff_eq_none] at closes
    simp only [closes] at moves
    exact ok.latest a current b s (moves b ▸ entry)
  · obtain reset | ⟨-, kept⟩ | ⟨kept, -⟩ | ⟨more, -⟩ := step.streak plain
    · exact reset.ge
    · exact positive.trans_eq kept.symm
    · exact positive.trans_eq kept.symm
    · have more : job.expiryStreak = old.expiryStreak + 1 := more
      omega
  · obtain reset | ⟨cancelled, -⟩ | ⟨kept, closes, still⟩ | ⟨more, closes, running⟩ := step.streak plain
    · have none' : job.expiryStreak = 0 := reset
      rw [none']
      exact .zero t id
    · exact absurd cancelled going
    · have kept : job.expiryStreak = old.expiryStreak := kept
      have row := ok.counted fun cancelled => going (still cancelled)
      rw [kept]
      obtain closes | closes := closes <;> simp only [closes] at moves
      · exact row.congr fun a s => by rw [moves a]
      · obtain ⟨attempt, current, closed⟩ := moves
        exact row.released (ledger.currentAttempt stored current) closed
    · have more : job.expiryStreak = old.expiryStreak + 1 := more
      have runs : old.status = .running := running
      have row := ok.counted (by simp [runs])
      simp only [closes] at moves
      obtain ⟨attempt, current, closed⟩ := moves
      rw [more, Int.toNat_add positive (by decide)]
      exact row.expired (ledger.currentAttempt stored current) (ok.latest attempt current) closed

theorem StreakOk.start (ledger : LedgerOk c) (ok : StreakOk c.attempts id old.toJobRow) {a : Attempt}
    (step : Life.Step old.maxAttempts .start old.life job.life) (current : job.currentAttemptId = some attempt)
    (opened : a.entry = (id, .running)) (fresh : ledgerEntry c.attempts attempt = none)
    (latest : attempt + 1 = c.nextUuid) : StreakOk (c.attempts.put attempt a) id job.toJobRow := by
  obtain ⟨-, streak, queued, -⟩ := step.start_keeps
  have streak : job.expiryStreak = old.expiryStreak := streak
  have queued : old.status = .queued := queued
  refine ⟨fun b mine b' s entry => ?_, streak ▸ ok.positive, fun _ => ?_⟩
  · cases current.symm.trans mine
    rw [ledgerEntry_put] at entry
    split_ifs at entry with own
    · exact own.le
    · exact Nat.le_of_lt_succ ((ledger.owned b' id s entry).1.trans_eq latest.symm)
  · rw [streak]
    exact (ok.counted (by simp [queued])).started opened fresh

/-- Every transition keeps the streaks in step with the ledger. -/
theorem StreaksOk.step (ledger : LedgerOk c) (ok : StreaksOk c) (h : Transition l c d) : StreaksOk d := by
  cases h with
  | mint | dropEdge | reserve | createWorkflow | changeWorkflow => exact ok
  | start row step current opened fresh latest =>
    intro other job' here
    rw [Table.get?_put] at here
    split_ifs at here with own
    · cases here
      subst own
      exact .start ledger (ok _ _ row.stored) step current opened fresh latest
    · refine (ok other job' here).congr fun a s => ?_
      rw [ledgerEntry_put, opened]
      split_ifs with same
      · simp [same, fresh, Ne.symm own]
      · rfl
  | change plain row step moves =>
    intro other job' here
    rw [Table.get?_put] at here
    split_ifs at here with own
    · cases here
      subst own
      exact .change ledger (ok _ _ row.stored) row.stored plain.1 step moves
    · exact (ok other job' here).congr (ledger.others row.stored moves own)
  | promote edge row step =>
    intro other job' here
    rw [Table.get?_put] at here
    split_ifs at here with own
    · cases here
      subst own
      exact .change ledger (ok _ _ row.stored) row.stored (by simp) step (SameLedger.refl _)
    · exact ok other job' here
  | delete stored =>
    intro other job' here
    rw [Table.get?_remove] at here
    split_ifs at here with own
    refine (ok other job' here).congr fun a s => ?_
    rw [LedgerOk.ledgerEntry_keep]
    simp [own]
  | @enter _ _ new _ _ _ fresh minted range born =>
    intro other job' here
    rw [Table.get?_put] at here
    split_ifs at here with own
    · cases here
      have idle : new.currentAttemptId = none := congrArg Life.attempt born
      have zero : new.expiryStreak = 0 := congrArg Life.expiryStreak born
      refine ⟨fun a current => ?_, zero.ge, fun _ => ?_⟩
      · cases idle.symm.trans current
      · rw [zero]
        exact .zero _ _
    · exact ok other job' here

theorem System.Reachable.streaksOk {site : Site} {allowed : System → Env → Command → Prop} {s : System}
    (reachable : System.Reachable site allowed s) : StreaksOk s.db.toCore := by
  refine (reachable.core (I := fun c => LedgerOk c ∧ StreaksOk c) (fun now => ?_) fun both h => ?_).2
  · exact ⟨(Sound.installed site now).ledger, fun _ _ here => nomatch here⟩
  · exact ⟨both.1.step h, .step both.1 both.2 h⟩

end Streaks

section Records

variable {c d : Core} {l : Label} {F : Set Label} {id a : Uuid}

/-- A transition records an attempt as expired only when it expires the lease of its job. -/
theorem Transition.records (h : Transition l c d) (ledger : LedgerOk c)
    (entry : ledgerEntry d.attempts a = some (id, .expired)) :
    ledgerEntry c.attempts a = some (id, .expired) ∨ ∃ k, l = .change id k ∧ k.closes = some .expired := by
  cases h with
  | mint | dropEdge | reserve | createWorkflow | changeWorkflow | promote | enter => exact .inl entry
  | start row step current opened =>
    rw [ledgerEntry_put, opened] at entry
    split_ifs at entry
    · cases entry
    · exact .inl entry
  | @change _ _ _ _ _ k _ plain row step moves =>
    unfold LedgerMoves at moves
    split at moves
    · exact .inl ((moves a).symm.trans entry)
    · rename_i status closes
      obtain ⟨attempt, current, closed⟩ := moves
      rw [closed a] at entry
      split_ifs at entry with own
      · rw [own, ledger.currentAttempt row.stored current] at entry
        cases entry
        exact .inr ⟨k, rfl, closes⟩
      · exact .inl entry
  | delete => exact .inl (LedgerOk.ledgerEntry_keep.mp entry).1

theorem Steps.records (steps : Steps F c d) (ledger : LedgerOk c)
    (entry : ledgerEntry d.attempts a = some (id, .expired)) :
    ledgerEntry c.attempts a = some (id, .expired) ∨ ∃ k, .change id k ∈ F ∧ k.closes = some .expired := by
  refine (steps.invariant (I := fun d => LedgerOk d ∧ (ledgerEntry d.attempts a = some (id, .expired) →
    ledgerEntry c.attempts a = some (id, .expired) ∨ ∃ k, .change id k ∈ F ∧ k.closes = some .expired))
    (fun {l c d} member h both => ⟨both.1.step h, fun entry => ?_⟩) ⟨ledger, .inl⟩).2 entry
  obtain before | ⟨k, rfl, closes⟩ := h.records both.1 entry
  · exact both.2 before
  · exact .inr ⟨k, member, closes⟩

/-- A call records an attempt as expired only when it may expire the lease of the job. -/
theorem Command.exec_records {env : Env} {db db' : Db} {command : Command} (run : command.exec env db = .ok db')
    (ledger : LedgerOk db.toCore) {old : Job} (stored : db.jobs.get? id = some old)
    (entry : ledgerEntry db'.attempts a = some (id, .expired)) :
    ledgerEntry db.attempts a = some (id, .expired) ∨ command.expires env id old.toJobRow := by
  obtain ⟨F, used, steps⟩ := Command.exec_steps run
  obtain before | ⟨k, member, closes⟩ := steps.records ledger entry
  · exact .inl before
  · right
    obtain plain | ⟨allowed, -⟩ := Command.footprints_change used member
    · cases k <;> simp_all [Change.plain, Change.closes]
    · cases k <;> first | exact allowed old stored | cases closes

end Records

end Taskq
