import Taskq.Lifecycle.SettlePaths

/-! The paths of the passes over many rows: lease reclaim, the sweeps over rows that have not
started, and the dependency stragglers. -/
namespace Taskq
open Relational

variable {env : Env} {S : Set Label} {id : Uuid} {db db' : Db}

section Reap

variable {job : Job} {db₀ : Db} {t₀ : Table Uuid Attempt} {attempt : Uuid}

/-- What an expired lease may do to its job. -/
def expiring : List Change := [.expireRetry, .expireBury, .expireCancel]

theorem expiring_subset {late : Set Uuid} (here : id ∈ late) : changesOf id expiring ⊆ expiries late := by
  rintro l ⟨k, member, rfl⟩
  refine ⟨id, here, ?_⟩
  simpa [expiring] using member

/-- The row that an expiry writes, after its attempt has been closed. -/
theorem expired_path {k : Change} {new : JobRow} (member : k ∈ expiring)
    (write : writeJob env id job new db₀ = .ok db')
    (before : db₀.toCore = { db.toCore with attempts := t₀ }) (calm : db₀.surroundings = db.surroundings)
    (stored : db.jobs.get? id = some job) (kept : new.identity = job.identity)
    (step : Life.Step job.maxAttempts k job.life new.life) (current : job.currentAttemptId = some attempt)
    (closed : ClosesEntry attempt .expired db.attempts t₀) :
    Path env (changesOf id expiring ∪ dependents) db db' := by
  have attempts : db'.attempts = t₀ := (writeJob_attempts write).trans (by rw [before])
  have closing : k.closes = some .expired ∧ k.unlinks = false ∧ k ≠ .start ∧ k ≠ .promote := by
    simp only [expiring, List.mem_cons, List.not_mem_nil, or_false] at member
    obtain rfl | rfl | rfl := member <;> simp [Change.closes, Change.unlinks]
  refine .change (t := t₀) write before calm stored kept step closing.2.2 ?_ ?_ rfl
    (.inl (mem_changesOf.mpr member))
  · simp only [LedgerMoves, closing.1]
    exact ⟨attempt, current, closed⟩
  · simp [closing.2.1, ← attempts]

theorem settleExpired_path (run : settleExpired env id job db₀ = .ok db')
    (before : db₀.toCore = { db.toCore with attempts := t₀ }) (calm : db₀.surroundings = db.surroundings)
    (stored : db.jobs.get? id = some job) (running : job.status = .running)
    (current : job.currentAttemptId = some attempt)
    (closed : ClosesEntry attempt .expired db.attempts t₀) :
    Path env (changesOf id expiring ∪ dependents) db db' := by
  have cascade : dependents ⊆ changesOf id expiring ∪ dependents := Set.subset_union_right
  simp only [settleExpired] at run
  split at run
  · rename_i asked
    simp only [reapCancelled, seq_eq_ok] at run
    obtain ⟨written, write, event⟩ := run
    exact (expired_path (k := .expireCancel) (by simp [expiring]) write before calm stored rfl
      (.expireCancel job.life running asked) current closed).trans
        ((emitEvent_path event).mono cascade)
  · rename_i asked
    split at run
    · rename_i last
      simp only [reapFailed, seq_eq_ok] at run
      obtain ⟨written, write, event⟩ := run
      exact (expired_path (k := .expireBury) (by simp [expiring]) write before calm stored rfl
        (.expireBury job.life running (eq_false_of_ne_true asked) last) current closed).trans
          ((emitEvent_path event).mono cascade)
    · rename_i last
      simp only [reapRequeued, seq_eq_ok] at run
      obtain ⟨delay, -, written, write, event⟩ := run
      exact (expired_path (k := .expireRetry) (by simp [expiring]) write before calm stored rfl
        (.expireRetry job.life running (eq_false_of_ne_true asked) last) current closed).trans
          ((emitEvent_path event).mono cascade)

theorem reapJob_path {done : Bool} (run : reapJob env id db = .ok (done, db')) :
    Path env (changesOf id expiring ∪ dependents) db db' := by
  unfold reapJob at run
  split at run
  · cases run
    exact .refl _
  · rename_i job found
    obtain ⟨stored, due⟩ := Option.filter_eq_some_iff.mp found
    have running : job.status = .running := by simp_all [leaseExpired]
    obtain ⟨attempt, current⟩ := Option.isSome_iff_exists.mp (job.running_iff.mp running).1
    obtain ⟨written, settle, finish⟩ := seq_eq_ok.mp run
    cases finish
    simp only [current] at settle
    exact settleExpired_path settle (closeAttempt_toCore _ _ _) (closeAttempt_surroundings _ _ _) stored
      running current (closeAttempt_closes (fun _ => by rfl) db)

/-- The labels of a reclaim of the leases of several jobs. -/
def reclaims (late : Set Uuid) : Set Label := expiries late ∪ dependents

/-- The jobs whose leases have run out. -/
def lapsed (env : Env) (c : Core) : Set Uuid :=
  {id | ∃ job, c.jobs.get? id = some job ∧ leaseExpired env job.toJobRow = true}

theorem reapAll_path {late : Set Uuid} {ids : List Uuid} {n : ℤ} (inside : ∀ id ∈ ids, id ∈ late)
    (run : reapAll env ids db = .ok (n, db')) : Path env (reclaims late) db db' := by
  induction ids generalizing db n with
  | nil =>
    cases run
    exact .refl _
  | cons id ids ih =>
    simp only [reapAll, seq_eq_ok] at run
    obtain ⟨⟨done, next⟩, first, ⟨m, last⟩, rest, finish⟩ := run
    cases finish
    have late := expiring_subset (inside id (by simp))
    exact ((reapJob_path first).mono (Set.union_subset_union_left _ late)).trans
      (ih (fun other member => inside other (by simp [member])) rest)

/-- The reaper reclaims leases that have run out when it starts. -/
theorem reapExpired_path {limit : Option ℤ} {n : ℤ}
    (run : reapExpired env limit db = .ok (n, db')) : Path env (reclaims (lapsed env db.toCore)) db db' := by
  refine reapAll_path (fun id member => ?_) run
  have chosen := List.mem_of_mem_take member
  simp only [expiredLeases, List.mem_map, Prod.exists, exists_and_right, exists_eq_right,
    Table.mem_selectBy] at chosen
  exact chosen

end Reap

section Sweeps

/-- The labels of a sweep that settles unstarted rows without touching their edges. Only jobs in
the set were blocked when the sweep reached them. -/
def sweeps (blocked : Set Uuid) : Set Label :=
  {l | ∃ id old, l = .change id (.withdraw false old) ∧ (old = .blocked → id ∈ blocked)} ∪ dependents

/-- The job is settled as cancelled or waits to start. -/
def idle (job : JobRow) : Prop :=
  job.status = .blocked ∨ job.status = .queued ∨ job.status = .cancelled

/-- A sweep keeps idle rows idle and blocks none. -/
theorem sweeps_row {blocked : Set Uuid} {c d : Core} (steps : Steps (sweeps blocked) c d) (id : Uuid)
    {job' : Job} (stored : d.jobs.get? id = some job') :
    ∃ job, c.jobs.get? id = some job ∧ (idle job.toJobRow → idle job'.toJobRow) ∧
      (job'.status = .blocked → job.status = .blocked) := by
  refine steps.row (R := fun r s => ∀ job', s = some job' → ∃ job, r = some job ∧
    (idle job.toJobRow → idle job'.toJobRow) ∧ (job'.status = .blocked → job.status = .blocked)) id
    ?_ ?_ ?_ job' stored
  · intro r job' present
    exact ⟨job', present, fun h => h, fun h => h⟩
  · intro r s t first second job' present
    obtain ⟨middle, found, keeps, back⟩ := second job' present
    obtain ⟨job, here, keeps', back'⟩ := first middle found
    exact ⟨job, here, fun h => keeps (keeps' h), fun h => back' (back h)⟩
  · intro l r s member move job' present
    cases move with
    | same => exact ⟨job', present, fun h => h, fun h => h⟩
    | @change k old job label _ _ step =>
      cases present
      have cancelled : job'.status = .cancelled := by
        obtain ⟨_, was, rfl, -⟩ | ⟨_, rfl⟩ := member
        · obtain ⟨rfl, rfl⟩ := Label.change.inj label
          exact step.withdraw_inv.2
        · obtain ⟨rfl, rfl⟩ := Label.change.inj label
          exact step.withdraw_inv.2
      refine ⟨old, rfl, fun _ => .inr (.inr cancelled), fun h => ?_⟩
      rw [cancelled] at h
      cases h
    | delete label => cases present
    | enter label =>
      obtain ⟨_, _, rfl, -⟩ | ⟨_, rfl⟩ := member <;> cases label

/-- The row is idle, and in the set when it is blocked. -/
def Sweepable (blocked : Set Uuid) (id : Uuid) (db : Db) : Prop :=
  ∀ job, db.jobs.get? id = some job →
    idle job.toJobRow ∧ (job.status = .blocked → id ∈ blocked)

theorem Sweepable.after {blocked : Set Uuid} {other : Uuid} (ready : Sweepable blocked other db)
    (path : Path env (sweeps blocked) db db') : Sweepable blocked other db' := by
  intro job' stored
  obtain ⟨job, before, keeps, back⟩ := sweeps_row path.steps other stored
  obtain ⟨waiting, inside⟩ := ready job before
  exact ⟨keeps waiting, fun h => inside (back h)⟩

theorem forEach_sweep {f : Uuid → Db → Call Db} {blocked : Set Uuid} {ids : List Uuid}
    (one : ∀ id db db', f id db = .ok db' → Sweepable blocked id db → Path env (sweeps blocked) db db')
    (ready : ∀ id ∈ ids, Sweepable blocked id db) (run : forEach f ids db = .ok db') :
    Path env (sweeps blocked) db db' := by
  induction ids generalizing db with
  | nil =>
    cases run
    exact .refl _
  | cons id ids ih =>
    obtain ⟨next, first, rest⟩ := seq_eq_ok.mp run
    have path := one id db next first (ready id (by simp))
    exact path.trans (ih (fun other member => (ready other (by simp [member])).after path) rest)

/-- One row of a sweep: the row is cancelled, and then the event cancels its dependents. -/
theorem sweepRow_path {blocked : Set Uuid} {f : JobRow → JobRow} {written : Db} {actor message : Option String}
    {data : Option Jsonb} (write : updateJob env id f db = .ok written)
    (event : emitEvent env id none "cancelled" actor message data written = .ok db')
    (ready : Sweepable blocked id db) (identity : ∀ r, (f r).identity = r.identity)
    (life : ∀ r, ∃ asked, (r.life.cancelRequested = true → asked = true) ∧
      (f r).life = { r.life with status := .cancelled, cancelRequested := asked }) :
    Path env (sweeps blocked) db db' := by
  refine Path.trans ?_ ((emitEvent_path event).mono Set.subset_union_right)
  unfold updateJob at write
  split at write
  · cases write
    exact .refl _
  · rename_i job stored
    obtain ⟨waiting, inside⟩ := ready job stored
    obtain ⟨asked, keeps, lands⟩ := life job.toJobRow
    refine .rewrite (k := .withdraw false job.life.status) write stored (identity _) ?_ (by simp) rfl rfl
      (.inl ⟨id, _, rfl, inside⟩)
    rw [lands]
    refine .withdraw job.life false asked ?_ keeps
    obtain h | h | h := waiting
    · exact .inl h
    · exact .inr (.inl h)
    · exact .inr (.inr ⟨h, rfl⟩)

/-- The jobs of a list that are blocked when a sweep starts. -/
def blockedOf (ids : List Uuid) (db : Db) : Set Uuid :=
  {id | id ∈ ids ∧ ∃ job, db.jobs.get? id = some job ∧ job.status = .blocked}

theorem sweepable_of_unstarted {ids : List Uuid} (member : id ∈ ids)
    (waiting : ∀ job, db.jobs.get? id = some job → unstarted job.toJobRow = true) :
    Sweepable (blockedOf ids db) id db := by
  intro job stored
  have h := waiting job stored
  simp only [unstarted, Bool.or_eq_true, decide_eq_true_eq] at h
  refine ⟨?_, fun blocked => ⟨member, job, stored, blocked⟩⟩
  obtain h | h := h
  · exact .inl h
  · exact .inr (.inl h)

/-- A loop over fetched rows, each of which waits when the loop starts. -/
theorem forRows_sweep {f : Uuid → Db → Call Db} {fresh : Db → Uuid → Bool} {limit : ℕ} {ids done : List Uuid}
    (one : ∀ {B : Set Uuid} id db db', f id db = .ok db' → Sweepable B id db → Path env (sweeps B) db db')
    (waiting : ∀ id ∈ ids, ∀ job, db.jobs.get? id = some job → unstarted job.toJobRow = true)
    (run : forRows fresh f limit ids db = .ok (done, db')) : Path env (sweeps (blockedOf ids db)) db db' := by
  obtain ⟨sub, -, loop⟩ := forRows_done run
  exact forEach_sweep one (fun id member => sweepable_of_unstarted (sub.subset member) (waiting id (sub.subset member))) loop

theorem finalizeCancelStragglers_path {limit : Option ℤ} {n : ℤ}
    (run : finalizeCancelStragglers env limit db = .ok (n, db')) :
    Path env (sweeps (blockedOf (cancelStragglers env db.toCore) db)) db db' := by
  simp only [finalizeCancelStragglers, seq_eq_ok] at run
  obtain ⟨-, -, ⟨done, last⟩, loop, finish⟩ := run
  cases finish
  refine forRows_sweep (fun id db db' one ready => ?_) (fun id member job stored => ?_) loop
  · simp only [finalizeStraggler, seq_eq_ok] at one
    obtain ⟨written, write, event⟩ := one
    exact sweepRow_path write event ready (fun _ => rfl)
      fun r => ⟨r.life.cancelRequested, fun h => h, rfl⟩
  · simp only [cancelStragglers, List.mem_map, Prod.exists, exists_and_right, exists_eq_right,
      Table.mem_selectBy, decide_eq_true_eq] at member
    obtain ⟨same, here, -, waiting, -⟩ := member
    cases here.symm.trans stored
    exact waiting

theorem expireTtlJob_path {blocked : Set Uuid} (run : expireTtlJob env id db = .ok db')
    (ready : Sweepable blocked id db) : Path env (sweeps blocked) db db' := by
  simp only [expireTtlJob, seq_eq_ok] at run
  obtain ⟨written, write, event⟩ := run
  refine sweepRow_path write event ready (fun _ => rfl)
    fun r => ⟨(r.cancelRequestedAt <|> some env.now).isSome, fun h => ?_, rfl⟩
  cases requested : r.cancelRequestedAt <;> rfl

theorem ttlExpired_unstarted {core : Core} (member : id ∈ ttlExpired env core) (job : Job)
    (stored : core.jobs.get? id = some job) : unstarted job.toJobRow = true := by
  simp only [ttlExpired, List.mem_map, Prod.exists, exists_and_right, exists_eq_right,
    Table.mem_selectBy, decide_eq_true_eq] at member
  obtain ⟨same, here, waiting, -⟩ := member
  cases here.symm.trans stored
  exact waiting

theorem expireTtl_path {limit : Option ℤ} {n : ℤ} (run : expireTtl env limit db = .ok (n, db')) :
    Path env (sweeps (blockedOf (ttlExpired env db.toCore) db)) db db' := by
  simp only [expireTtl, expireRows, seq_eq_ok] at run
  obtain ⟨-, -, ⟨done, last⟩, loop, finish⟩ := run
  cases finish
  exact forRows_sweep (fun id db db' one ready => expireTtlJob_path one ready) (fun id => ttlExpired_unstarted) loop

end Sweeps

section Dependencies

theorem promoteChild_path {parent child : Uuid} (run : promoteChild env parent child db = .ok db') :
    Path env promotions db db' := by
  unfold promoteChild at run
  split at run
  · rename_i edge
    have drop (released : ∀ job, db.jobs.get? child = some job → job.status ≠ .blocked) :
        Path env promotions db { db with deps := db.deps.erase (child, parent) } :=
      .quiet (.dropEdge edge released) ⟨child, .inr rfl⟩ rfl rfl
    simp only at run
    split at run
    · rename_i missing
      cases run
      exact drop fun job stored => by simp [missing] at stored
    · rename_i old stored
      split at run
      · rename_i blocked
        obtain ⟨written, write, finish⟩ := seq_eq_ok.mp run
        cases finish
        rw [blocked] at write
        refine Path.trans (?_ : Path env promotions db written)
          (.aside (by split_ifs <;> rfl) (by split_ifs <;> rfl))
        have last : Logs env { db with deps := db.deps.erase (child, parent) } written :=
          .single (.update stored (by rfl) write)
        have logs : Logs env db written := by
          refine Logs.trans ?_ last
          exact .aside rfl rfl
        obtain ⟨job, counts, counters, flows, events, same, range, counted, rfl⟩ := writeJob_frame write
        have row : RowWrite db.toCore child old job counts := by
          refine ⟨stored, same ▸ range, ?_, same ▸ counted⟩
          rw [same]
          rfl
        refine .single (.promote edge row ?_) ⟨child, .inl rfl⟩ rfl logs
        rw [same]
        exact .promote old.life blocked
      · rename_i released
        cases run
        exact drop fun job here => by
          cases stored.symm.trans here
          exact released
  · cases run
    exact .refl _

theorem countEdges_path {edges : List ReadyEdge} {m n : ℤ}
    (run : forEach (countEdge env) edges (m, db) = .ok (n, db')) : Path env (promotions ∪ dependents) db db' := by
  induction edges generalizing db m with
  | nil =>
    cases run
    exact .refl _
  | cons edge edges ih =>
    obtain ⟨counted, step, loop⟩ := seq_eq_ok.mp run
    simp only [countEdge, seq_eq_ok] at step
    obtain ⟨⟨k, next⟩, first, finish⟩ := step
    cases finish
    refine Path.trans ?_ (ih loop)
    obtain ⟨child, parent, status⟩ := edge
    simp only [finalizeEdge] at first
    split at first
    · obtain ⟨done, promote, finish⟩ := seq_eq_ok.mp first
      cases finish
      exact (promoteChild_path promote).mono Set.subset_union_left
    · exact (cancelDependents_path first).mono Set.subset_union_right

theorem finalizeDepStragglers_path {limit : Option ℤ} {n : ℤ}
    (run : finalizeDepStragglers env limit db = .ok (n, db')) :
    Path env (promotions ∪ dependents) db db' := by
  simp only [finalizeDepStragglers, seq_eq_ok] at run
  obtain ⟨-, -, ⟨done, counted⟩, rows, finish⟩ := run
  cases finish
  obtain ⟨-, -, loop⟩ := forRows_done rows
  exact countEdges_path loop

end Dependencies

end Taskq
