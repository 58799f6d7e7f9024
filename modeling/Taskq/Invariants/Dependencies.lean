import Taskq.Invariants.Sound

/-! Dependency bookkeeping: who waits, on how many jobs, and what the counter of a job says about it. Every change keeps
the three together but one: a sweep that settles a blocked row without removing the edges on which it waits. -/
namespace Taskq
open Relational

variable {c d : Core} {l : Label} {id : Uuid} {env : Env} {db db' : Db} {command : Command}

section Linked

/-- The number of jobs on which a job waits. -/
def edgesOf (c : Core) (id : Uuid) : ℕ := (c.deps.filter fun e => e.1 = id).card

/-- Exactly the blocked jobs wait, and the counter of a job that is not cancelled says on how many. -/
structure Linked (c : Core) : Prop where
  waiting : ∀ child parent, (child, parent) ∈ c.deps → ∃ job, c.jobs.get? child = some job ∧ job.status = .blocked
  held : ∀ id job, c.jobs.get? id = some job → job.status = .blocked → 0 < edgesOf c id
  counted : ∀ id job, c.jobs.get? id = some job → job.status ≠ .cancelled → job.pendingDeps = edgesOf c id

/-- A blocked job was never asked to stop. -/
def BlockedUnasked (c : Core) : Prop :=
  ∀ id job, c.jobs.get? id = some job → job.status = .blocked → job.cancelRequestedAt = none

/-- A change other than a promotion leaves the counter of a job and does not unblock it, unless it cancels it. -/
theorem Life.Step.blocks {max : ℤ} {k : Change} {l l' : Life} (step : Life.Step max k l l') (other : k ≠ .promote)
    (unlinks : k ≠ .withdraw false .blocked) : l'.pendingDeps = l.pendingDeps ∧
      (l.status = .cancelled → l'.status = .cancelled) ∧ (l'.status = .blocked → l.status = .blocked) ∧
      (l.status = .blocked → l'.status = .blocked ∧ k.unlinks = false ∨ l'.status = .cancelled ∧ k.unlinks = true) := by
  cases step with
  | promote => exact absurd rfl other
  | withdraw _ drops =>
    refine ⟨rfl, fun _ => rfl, fun blocked => (by cases blocked), fun blocked => .inr ⟨rfl, ?_⟩⟩
    cases drops with
    | true => rfl
    | false => exact absurd (congrArg _ blocked) unlinks
  | adjust | link => exact ⟨rfl, fun h => h, fun h => h, fun h => .inl ⟨h, rfl⟩⟩
  | start _ _ idle | redrive _ idle | beat _ idle | retry _ idle | bury _ _ idle | snooze _ idle | release _ idle
    | succeed _ idle | cancelRunning _ _ idle | expireRetry _ idle | expireBury _ idle | expireCancel _ idle
    | requestCancel _ idle => simp [idle, Life.ended, Life.failedOnce]

theorem edgesOf_eq_zero (none' : ∀ parent, (id, parent) ∉ c.deps) : edgesOf c id = 0 := by
  refine Finset.card_eq_zero.mpr (Finset.filter_eq_empty_iff.mpr ?_)
  rintro ⟨child, parent⟩ edge rfl
  exact none' parent edge

/-- A job that is not blocked waits on nothing. -/
theorem Linked.free (linked : Linked c) {job : Job} (stored : c.jobs.get? id = some job) (free : job.status ≠ .blocked)
    (parent : Uuid) : (id, parent) ∉ c.deps := fun edge => by
  obtain ⟨job', stored', blocked⟩ := linked.waiting id parent edge
  cases stored.symm.trans stored'
  exact free blocked

/-- Removing the edges of a job that has none. -/
theorem filter_edges (none' : ∀ parent, (id, parent) ∉ c.deps) : c.deps.filter (fun e => e.1 ≠ id) = c.deps := by
  refine Finset.filter_true_of_mem ?_
  rintro ⟨child, parent⟩ edge rfl
  exact none' parent edge

theorem edgesOf_filter {other : Uuid} (deps : d.deps = c.deps.filter fun e => e.1 ≠ id) :
    edgesOf d other = if other = id then 0 else edgesOf c other := by
  unfold edgesOf
  rw [deps, Finset.filter_filter]
  split_ifs with own
  · refine Finset.card_eq_zero.mpr (Finset.filter_eq_empty_iff.mpr fun e _ both => both.1 (both.2.trans own))
  · congr 1
    refine Finset.filter_congr fun e _ => ?_
    constructor
    · exact fun both => both.2
    · exact fun same => ⟨fun is => own (same.symm.trans is), same⟩

/-- A row that is rewritten without a move of its edges, and is as blocked as before. -/
theorem Linked.keep {old job : Job} {m : Table Uuid MemberCounts} (linked : Linked c) (row : RowWrite c id old job m)
    (jobs : d.jobs = c.jobs.put id job) (deps : d.deps = c.deps) (blocks : old.status = .blocked ↔ job.status = .blocked)
    (cancelled : old.status = .cancelled → job.status = .cancelled) (same : job.pendingDeps = old.pendingDeps) :
    Linked d := by
  have edges (other : Uuid) : edgesOf d other = edgesOf c other := by simp only [edgesOf, deps]
  constructor
  · intro child parent edge
    rw [deps] at edge
    obtain ⟨was, stored, blocked⟩ := linked.waiting child parent edge
    rw [jobs, Table.get?_put]
    split_ifs with own
    · subst own
      cases row.stored.symm.trans stored
      exact ⟨job, rfl, blocks.mp blocked⟩
    · exact ⟨was, stored, blocked⟩
  · intro other j here blocked
    rw [jobs, Table.get?_put] at here
    rw [edges]
    split_ifs at here with own
    · subst own
      cases here
      exact linked.held other old row.stored (blocks.mpr blocked)
    · exact linked.held other j here blocked
  · intro other j here live
    rw [jobs, Table.get?_put] at here
    rw [edges]
    split_ifs at here with own
    · subst own
      cases here
      exact same.trans (linked.counted other old row.stored fun was => live (cancelled was))
    · exact linked.counted other j here live

/-- A blocked row is cancelled and its edges go. -/
theorem Linked.cancel {job : Job} (linked : Linked c)
    (jobs : d.jobs = c.jobs.put id job) (deps : d.deps = c.deps.filter fun e => e.1 ≠ id)
    (cancelled : job.status = .cancelled) : Linked d := by
  constructor
  · intro child parent edge
    rw [deps, Finset.mem_filter] at edge
    rw [jobs, Table.get?_put_of_ne _ _ edge.2]
    exact linked.waiting child parent edge.1
  · intro other j here blocked
    rw [jobs, Table.get?_put] at here
    rw [edgesOf_filter deps]
    split_ifs at here ⊢
    · cases here
      cases cancelled.symm.trans blocked
    · exact linked.held other j here blocked
  · intro other j here live
    rw [jobs, Table.get?_put] at here
    rw [edgesOf_filter deps]
    split_ifs at here ⊢
    · cases here
      exact absurd cancelled live
    · exact linked.counted other j here live

theorem Linked.write {old job : Job} {m : Table Uuid MemberCounts} {k : Change} (linked : Linked c)
    (row : RowWrite c id old job m) (step : Life.Step old.maxAttempts k old.life job.life) (other : k ≠ .promote)
    (unlinks : k ≠ .withdraw false .blocked) (jobs : d.jobs = c.jobs.put id job)
    (deps : d.deps = if k.unlinks then c.deps.filter fun e => e.1 ≠ id else c.deps) : Linked d := by
  obtain ⟨same, cancelled, back, blocked⟩ := step.blocks other unlinks
  by_cases was : old.status = .blocked
  · obtain ⟨still, keeps⟩ | ⟨ends, drops⟩ := blocked was
    · rw [keeps] at deps
      exact linked.keep row jobs deps ⟨fun _ => still, fun _ => was⟩ cancelled same
    · rw [drops] at deps
      exact linked.cancel jobs deps ends
  · rw [filter_edges (linked.free row.stored was), ite_self] at deps
    exact linked.keep row jobs deps ⟨fun h => absurd h was, back⟩ cancelled same

theorem edgesOf_erase {child parent other : Uuid} (edge : (child, parent) ∈ c.deps)
    (deps : d.deps = c.deps.erase (child, parent)) :
    edgesOf c other = edgesOf d other + if other = child then 1 else 0 := by
  unfold edgesOf
  rw [deps, Finset.filter_erase]
  split_ifs with own
  · subst own
    have own : (other, parent) ∈ c.deps.filter fun e => e.1 = other := Finset.mem_filter.mpr ⟨edge, rfl⟩
    exact (Finset.card_erase_add_one own).symm
  · rw [Finset.erase_eq_of_notMem]
    · rfl
    · exact fun member => own (Finset.mem_filter.mp member).2.symm

/-- A promotion uses up one edge. -/
theorem Linked.promote {child parent : Uuid} {old job : Job} {m : Table Uuid MemberCounts} (linked : Linked c)
    (edge : (child, parent) ∈ c.deps) (row : RowWrite c child old job m)
    (step : Life.Step old.maxAttempts .promote old.life job.life) (jobs : d.jobs = c.jobs.put child job)
    (deps : d.deps = c.deps.erase (child, parent)) : Linked d := by
  have blocked : old.status = .blocked := step.promote_inv
  have pending : old.pendingDeps = edgesOf c child := linked.counted child old row.stored (by rw [blocked]; decide)
  have edges (other : Uuid) : edgesOf c other = edgesOf d other + if other = child then 1 else 0 :=
    edgesOf_erase edge deps
  have moved : job.life.pendingDeps = old.life.pendingDeps - 1 ∧
      job.life.status = if old.life.pendingDeps = 1 then .queued else .blocked := by
    generalize old.life = before at step ⊢
    generalize job.life = after at step ⊢
    cases step
    exact ⟨rfl, rfl⟩
  have counter : job.pendingDeps = old.pendingDeps - 1 := moved.1
  have status : job.status = if old.pendingDeps = 1 then .queued else .blocked := moved.2
  have left : edgesOf c child = edgesOf d child + 1 := by simpa using edges child
  have others (other : Uuid) (apart : other ≠ child) : edgesOf c other = edgesOf d other := by
    simpa [apart] using edges other
  constructor
  · intro child' parent' edge'
    rw [jobs, Table.get?_put]
    split_ifs with own
    · subst own
      have some' : 0 < edgesOf d child' := Finset.card_pos.mpr ⟨_, Finset.mem_filter.mpr ⟨edge', rfl⟩⟩
      refine ⟨job, rfl, status.trans (if_neg ?_)⟩
      omega
    · rw [deps] at edge'
      exact linked.waiting child' parent' (Finset.mem_of_mem_erase edge')
  · intro other j here waits
    rw [jobs, Table.get?_put] at here
    split_ifs at here with own
    · subst own
      cases here
      rw [status] at waits
      split_ifs at waits
      omega
    · exact others other own ▸ linked.held other j here waits
  · intro other j here live
    rw [jobs, Table.get?_put] at here
    split_ifs at here with own
    · subst own
      cases here
      omega
    · exact others other own ▸ linked.counted other j here live

/-- A row goes on whose job nothing waits. -/
theorem Linked.remove (linked : Linked c) (jobs : d.jobs = c.jobs.remove id) (none' : ∀ parent, (id, parent) ∉ c.deps)
    (deps : d.deps = c.deps.filter fun e => e.1 ≠ id) : Linked d := by
  rw [filter_edges none'] at deps
  have edges (other : Uuid) : edgesOf d other = edgesOf c other := by simp only [edgesOf, deps]
  constructor
  · intro child parent edge
    rw [deps] at edge
    have apart : child ≠ id := by
      rintro rfl
      exact none' parent edge
    rw [jobs, Table.get?_remove, if_neg apart]
    exact linked.waiting child parent edge
  · intro other j here
    rw [jobs, Table.get?_remove] at here
    split_ifs at here
    exact edges other ▸ linked.held other j here
  · intro other j here
    rw [jobs, Table.get?_remove] at here
    split_ifs at here
    exact edges other ▸ linked.counted other j here

/-- A new job waits on each of its parents. -/
theorem Linked.enter {job : Job} {parents : List Uuid} (linked : Linked c) (fresh : c.jobs.get? id = none)
    (born : job.life = .fresh (if parents = [] then .queued else .blocked) parents.length) (distinct : parents.Nodup)
    (jobs : d.jobs = c.jobs.put id job) (deps : d.deps = c.deps ∪ (parents.map fun p => (id, p)).toFinset) : Linked d := by
  have none' (parent : Uuid) : (id, parent) ∉ c.deps := fun edge => by
    obtain ⟨_, stored, -⟩ := linked.waiting id parent edge
    cases fresh.symm.trans stored
  have status : job.status = if parents = [] then .queued else .blocked := congrArg Life.status born
  have counter : job.pendingDeps = parents.length := congrArg Life.pendingDeps born
  have new : ((parents.map fun p => (id, p)).toFinset.filter fun e => e.1 = id) = (parents.map fun p => (id, p)).toFinset :=
    Finset.filter_true_of_mem (by simp)
  have own : edgesOf d id = parents.length := by
    have old : (c.deps.filter fun e => e.1 = id) = ∅ := Finset.card_eq_zero.mp (edgesOf_eq_zero none')
    have once : (parents.map fun p => (id, p)).Nodup := distinct.map fun _ _ same => congrArg Prod.snd same
    rw [edgesOf, deps, Finset.filter_union, old, new, Finset.empty_union, List.toFinset_card_of_nodup once, List.length_map]
  have others (other : Uuid) (apart : other ≠ id) : edgesOf d other = edgesOf c other := by
    have none'' : ((parents.map fun p => (id, p)).toFinset.filter fun e => e.1 = other) = ∅ :=
      Finset.filter_eq_empty_iff.mpr (by simp [apart.symm])
    rw [edgesOf, edgesOf, deps, Finset.filter_union, none'', Finset.union_empty]
  constructor
  · intro child parent edge
    rw [jobs, Table.get?_put]
    rw [deps, Finset.mem_union] at edge
    split_ifs with is
    · subst is
      refine ⟨job, rfl, status.trans (if_neg ?_)⟩
      rintro rfl
      simp [none'] at edge
    · have apart : id ≠ child := fun same => is same.symm
      exact linked.waiting child parent (edge.resolve_right (by simp [apart]))
  · intro other j here blocked
    rw [jobs, Table.get?_put] at here
    split_ifs at here with is
    · subst is
      cases here
      rw [status] at blocked
      split_ifs at blocked with empty
      rw [own]
      exact List.length_pos_of_ne_nil empty
    · exact others other is ▸ linked.held other j here blocked
  · intro other j here live
    rw [jobs, Table.get?_put] at here
    split_ifs at here with is
    · subst is
      cases here
      rw [counter, own]
    · exact others other is ▸ linked.counted other j here live

theorem Linked.step (linked : Linked c) (h : Transition l c d) (unlinks : ∀ id, l ≠ .change id (.withdraw false .blocked)) :
    Linked d := by
  cases h with
  | mint | reserve | createWorkflow | changeWorkflow => exact ⟨linked.waiting, linked.held, linked.counted⟩
  | start row step => exact linked.write row step (by simp) (by simp) rfl rfl
  | change plain row step => exact linked.write row step plain.2 (fun is => unlinks _ (congrArg _ is)) rfl rfl
  | promote edge row step => exact linked.promote edge row step rfl rfl
  | dropEdge edge released =>
    obtain ⟨job, stored, blocked⟩ := linked.waiting _ _ edge
    exact absurd blocked (released job stored)
  | delete stored terminal =>
    refine linked.remove rfl (linked.free stored ?_) rfl
    rintro blocked
    simp [blocked, JobStatus.terminal] at terminal
  | enter fresh _ _ born _ _ _ distinct => exact linked.enter fresh born distinct rfl rfl

end Linked

section Unasked

theorem Life.Step.blocked_unasked {max : ℤ} {k : Change} {l l' : Life} (step : Life.Step max k l l')
    (blocked : l'.status = .blocked) : l.status = .blocked ∧ l'.cancelRequested = l.cancelRequested := by
  cases step with
  | promote _ was => exact ⟨was, rfl⟩
  | adjust | link => exact ⟨blocked, rfl⟩
  | withdraw | start | redrive | retry | bury | snooze | release | succeed | cancelRunning | expireRetry | expireBury
    | expireCancel => cases blocked
  | beat _ running => cases running.symm.trans blocked
  | requestCancel _ running => cases running.symm.trans blocked

theorem BlockedUnasked.write {old job : Job} {m : Table Uuid MemberCounts} {k : Change} (unasked : BlockedUnasked c)
    (row : RowWrite c id old job m) (step : Life.Step old.maxAttempts k old.life job.life)
    (jobs : d.jobs = c.jobs.put id job) : BlockedUnasked d := by
  intro other j here blocked
  rw [jobs, Table.get?_put] at here
  split_ifs at here
  · cases here
    obtain ⟨was, same⟩ := step.blocked_unasked blocked
    have before : old.cancelRequestedAt = none := unasked id old row.stored was
    have same : job.cancelRequestedAt.isSome = old.cancelRequestedAt.isSome := same
    rw [before] at same
    exact Option.isSome_eq_false_iff.mp same |> Option.isNone_iff_eq_none.mp
  · exact unasked other j here blocked

theorem BlockedUnasked.step (unasked : BlockedUnasked c) (h : Transition l c d) : BlockedUnasked d := by
  cases h with
  | mint | dropEdge | reserve | createWorkflow | changeWorkflow => exact unasked
  | start row step => exact unasked.write row step rfl
  | change _ row step => exact unasked.write row step rfl
  | promote _ row step => exact unasked.write row step rfl
  | delete =>
    intro other j here
    rw [Table.get?_remove] at here
    split_ifs at here
    exact unasked other j here
  | @enter _ id job _ _ _ _ _ _ born =>
    intro other j here
    rw [Table.get?_put] at here
    split_ifs at here
    · cases here
      intro _
      have fresh : job.cancelRequestedAt.isSome = false := congrArg Life.cancelRequested born
      exact Option.isNone_iff_eq_none.mp (Option.isSome_eq_false_iff.mp fresh)
    · exact unasked other j here

theorem BlockedUnasked.none_asked (unasked : BlockedUnasked c) : askedBlocked c = ∅ := by
  refine Set.eq_empty_of_forall_notMem ?_
  rintro id ⟨job, stored, blocked, asked⟩
  simp [unasked id job stored blocked] at asked

end Unasked

section Sweeps

/-- A sweep over these rows comes to one that is blocked at its turn. -/
def meetsBlocked (f : Uuid → Db → Call Db) : List Uuid → Db → Bool
  | [], _ => false
  | id :: ids, db =>
    (db.jobs.get? id).any (·.status = .blocked) || (f id db).toOption.any (meetsBlocked f ids)

/-- A sweep that meets no blocked row settles none. -/
theorem forEach_sweep_calm {f : Uuid → Db → Call Db} {ids : List Uuid}
    (one : ∀ id db db', f id db = .ok db' → Sweepable ∅ id db → Path env (sweeps ∅) db db')
    (waiting : ∀ id ∈ ids, ∀ job, db.jobs.get? id = some job → idle job.toJobRow)
    (calm : meetsBlocked f ids db = false) (run : forEach f ids db = .ok db') : Path env (sweeps ∅) db db' := by
  induction ids generalizing db with
  | nil =>
    cases run
    exact .refl _
  | cons id ids ih =>
    obtain ⟨next, first, rest⟩ := seq_eq_ok.mp run
    simp only [meetsBlocked, Bool.or_eq_false_iff, toOption_eq_some.mpr first, Option.any_some] at calm
    have ready : Sweepable ∅ id db := by
      intro job stored
      refine ⟨waiting id (by simp) job stored, fun blocked => ?_⟩
      simp [stored, blocked] at calm
    have path := one id db next first ready
    refine path.trans (ih (fun other member job here => ?_) calm.2 rest)
    obtain ⟨was, there, keeps, -⟩ := sweeps_row path.steps other here
    exact keeps (waiting other (by simp [member]) was there)

theorem idle_of_unstarted {job : JobRow} (waiting : unstarted job = true) : idle job := by
  simp only [unstarted, Bool.or_eq_true, decide_eq_true_eq] at waiting
  exact waiting.imp_right .inl

/-- The same of a loop over fetched rows. -/
theorem forRows_sweep_calm {f : Uuid → Db → Call Db} {fresh : Db → Uuid → Bool} {limit : ℕ} {ids done : List Uuid}
    (one : ∀ id db db', f id db = .ok db' → Sweepable ∅ id db → Path env (sweeps ∅) db db')
    (waiting : ∀ id ∈ ids, ∀ job, db.jobs.get? id = some job → unstarted job.toJobRow = true)
    (calm : meetsBlocked f done db = false) (run : forRows fresh f limit ids db = .ok (done, db')) :
    Path env (sweeps ∅) db db' := by
  obtain ⟨sub, -, loop⟩ := forRows_done run
  exact forEach_sweep_calm one (fun id member job stored => idle_of_unstarted (waiting id (sub.subset member) job stored))
    calm loop

end Sweeps

section Calls

/-- A sweep over rows past their time to live comes to one that is blocked at its turn. -/
def expiryStrands (env : Env) (limit : Option ℤ) (db : Db) : Bool :=
  (expireRows env (min (limit.getD 200) 500).toNat db).toOption.any fun swept =>
    meetsBlocked (expireTtlJob env) swept.1 db

/-- The call settles a blocked row whose own edges stay: the rows that the loop of a purge fetches, or that of a sweep over
rows past their time to live, contain one that is blocked at its turn. -/
def Command.strands (env : Env) (db : Db) : Command → Bool
  | .purgeQueued queue limit actor reason =>
    (purgeRows env queue limit actor reason db).toOption.any fun swept =>
      meetsBlocked (purgeJob env actor reason) swept.1 db
  | .expireTtl limit => expiryStrands env limit db
  | .tick limit => env.tryLock "taskq:tick" &&
    expiryStrands env (some 200) (inBlock (Taskq.reapExpired env limit) db).2
  | _ => false

/-- No blocked row is settled with its edges left. -/
def StrandsNone (S : Set Label) : Prop := ∀ id, .change id (.withdraw false .blocked) ∉ S

theorem strandsNone_sweeps : StrandsNone (sweeps ∅) := by
  intro id member
  simp [sweeps, dependents] at member

theorem expireTtl_calm {limit : Option ℤ} {n : ℤ} (run : expireTtl env limit db = .ok (n, db'))
    (calm : expiryStrands env limit db = false) : Path env (sweeps ∅) db db' := by
  simp only [expireTtl, seq_eq_ok] at run
  obtain ⟨-, -, ⟨done, last⟩, rows, finish⟩ := run
  cases finish
  simp only [expiryStrands, toOption_eq_some.mpr rows, Option.any_some] at calm
  exact forRows_sweep_calm (fun id db db' one ready => expireTtlJob_path one ready) (fun id => ttlExpired_unstarted) calm rows

theorem purgeQueued_calm {queue : String} {limit : Option ℤ} {actor reason : Option String} {n : ℤ}
    (run : purgeQueued env queue limit actor reason db = .ok (n, db'))
    (calm : (Command.purgeQueued queue limit actor reason).strands env db = false) : Path env (sweeps ∅) db db' := by
  simp only [purgeQueued, seq_eq_ok] at run
  obtain ⟨-, -, -, -, ⟨done, last⟩, rows, finish⟩ := run
  cases finish
  simp only [Command.strands, toOption_eq_some.mpr rows, Option.any_some] at calm
  exact forRows_sweep_calm (fun id db db' one ready => purgeJob_path one ready) (fun id => purgeable_unstarted) calm rows

theorem Command.exec_calm (run : command.exec env db = .ok db') (unasked : BlockedUnasked db.toCore)
    (calm : command.strands env db = false) : ∃ F, StrandsNone F ∧ Steps F db.toCore db'.toCore := by
  have none' := unasked.none_asked
  cases command with
  | purgeQueued =>
    obtain ⟨answer, run⟩ := map_snd_eq_ok.mp run
    exact ⟨_, strandsNone_sweeps, (purgeQueued_calm run calm).steps⟩
  | expireTtl =>
    obtain ⟨answer, run⟩ := map_snd_eq_ok.mp run
    exact ⟨_, strandsNone_sweeps, (expireTtl_calm run calm).steps⟩
  | finalizeCancelStragglers limit =>
    obtain ⟨answer, run⟩ := map_snd_eq_ok.mp run
    refine ⟨_, strandsNone_sweeps, (finalizeCancelStragglers_path run).steps.mono (sweeps_mono ?_)⟩
    exact (cancelStragglers_blocked _ _).trans none'.subset
  | tick limit =>
    obtain ⟨answer, run⟩ := map_snd_eq_ok.mp run
    refine ⟨ticks (lapsed env db.toCore) ∅, ?_, (tick_path_of run (fun locked _ n next pass => expireTtl_calm pass ?_) none'.subset).steps⟩
    · intro id member
      simp [ticks, sweeps, dependents, reclaims, expiries, withdrawals, cancelling, promotions, finalizations] at member
    · simpa [Command.strands, locked] using calm
  | claimJobs | claimJobsWithPolicies =>
    obtain ⟨F, used, steps⟩ := Command.exec_steps run
    refine ⟨F, fun id member => ?_, steps⟩
    obtain rfl | rfl := used <;> simp [starts, reclaims, expiries, dependents] at member
  | _ =>
    obtain ⟨F, used, steps⟩ := Command.exec_steps run
    cases used
    refine ⟨_, fun id member => ?_, steps⟩
    simp [idleLabels, changesOf, dependents, revocations, reclaims, expiries, redrives, promotions, creations, abandons,
      withdrawals, cancelling, finalizations, admissions, receipts, completions, followups, failing, expiring, firings,
      deletions] at member

theorem Command.exec_linked (run : command.exec env db = .ok db') (unasked : BlockedUnasked db.toCore)
    (linked : Linked db.toCore) (calm : command.strands env db = false) : Linked db'.toCore := by
  obtain ⟨F, quiet, steps⟩ := Command.exec_calm run unasked calm
  exact steps.invariant (fun member h linked => linked.step h fun id label => quiet id (label ▸ member)) linked

end Calls

section Cancelled

/-- A call cancels a job that was blocked. -/
def CancelsBlocked (before after : Db) : Prop :=
  ∃ id job job', before.jobs.get? id = some job ∧ job.status = .blocked ∧ after.jobs.get? id = some job' ∧
    job'.status = .cancelled

/-- The counter of a cancelled job is zero. -/
def CancelledCounted (c : Core) : Prop :=
  ∀ id job, c.jobs.get? id = some job → job.status = .cancelled → job.pendingDeps = 0

theorem Life.Step.unblocked {max : ℤ} {k : Change} {l l' : Life} (step : Life.Step max k l l')
    (free : l.status ≠ .blocked) : l'.pendingDeps = l.pendingDeps ∧ l'.status ≠ .blocked := by
  have other : k ≠ .promote := by
    rintro rfl
    exact free step.promote_inv
  have unlinks : k ≠ .withdraw false .blocked := by
    rintro rfl
    exact free step.withdraw_inv.1
  obtain ⟨same, -, back, -⟩ := step.blocks other unlinks
  exact ⟨same, fun blocked => free (back blocked)⟩

theorem Life.Step.stays_live {max : ℤ} {k : Change} {l l' : Life} (step : Life.Step max k l l')
    (kind : k = .succeed ∨ k = .promote ∨ ∃ admission, k = .link admission) (live : l.status ≠ .cancelled) :
    l'.status ≠ .cancelled := by
  obtain rfl | rfl | ⟨admission, rfl⟩ := kind
  · cases step
    exact fun is => by cases is
  · cases step
    split_ifs
    · exact fun is => by cases is
    · exact fun is => by cases is
  · cases step
    exact live

/-- A call that adds a job cancels none of its kind. -/
theorem Command.footprints_enter_changes {F : Set Label} (used : F ∈ command.footprints env db) {parent : Option Uuid}
    (enters : .enter id parent ∈ F) {k : Change} (member : .change id k ∈ F) :
    k = .succeed ∨ k = .promote ∨ ∃ admission, k = .link admission := by
  cases command with
  | enqueue | tryEnqueue | enqueueMany =>
    cases used
    simp [admissions] at member
  | finishAdmission =>
    cases used
    exact .inr (.inr (by simpa [receipts, admissions] using member))
  | fireSchedule =>
    cases used
    simp [firings, deletions, admissions] at member
  | completeJob jobId | completeJobWithPolicy jobId =>
    cases used
    have only : (id = jobId ∧ k = .succeed) ∨ k = .promote := by
      simpa [completions, changesOf, promotions, followups, and_comm, eq_comm] using member
    exact only.elim (fun h => .inl h.2) fun h => .inr (.inl h)
  | claimJobs | claimJobsWithPolicies =>
    obtain rfl | rfl := used <;> simp [starts, reclaims, expiries, dependents] at enters
  | _ =>
    cases used
    simp [idleLabels, changesOf, dependents, sweeps, revocations, reclaims, expiries, redrives, promotions, creations,
      abandons, withdrawals, finalizations, ticks, deletions] at enters

/-- A cancelled row was blocked before the call, or its counter is as it was. -/
theorem Command.exec_cancelled (run : command.exec env db = .ok db') (minted : Minted db.toCore) {job : Job}
    (here : db'.jobs.get? id = some job) (cancelled : job.status = .cancelled) :
    ∃ was, db.jobs.get? id = some was ∧ (was.status ≠ .blocked → job.pendingDeps = was.pendingDeps) := by
  obtain ⟨F, used, steps⟩ := Command.exec_steps run
  by_cases enters : ∃ p, .enter id p ∈ F
  · obtain ⟨p, enters⟩ := enters
    have live := steps.row (R := fun r s => (∀ j, r = some j → j.status ≠ .cancelled) → ∀ j, s = some j → j.status ≠ .cancelled)
      id (fun _ h => h) (fun first second h => second (first h)) fun {l r s} member move before j here => by
        cases move with
        | same => exact before j here
        | delete => cases here
        | @enter _ _ parents _ _ born =>
          cases here
          have status : j.status = if parents = [] then .queued else .blocked := congrArg Life.status born
          rw [status]
          split_ifs
          · exact fun is => by cases is
          · exact fun is => by cases is
        | change label _ _ step =>
          cases here
          exact step.stays_live (Command.footprints_enter_changes used enters (label ▸ member)) (before _ rfl)
    have absent : ∀ j, db.jobs.get? id = some j → j.status ≠ .cancelled := fun j stored =>
      absurd (minted.jobs id (by simp [stored])) (Nat.not_lt.mpr (Command.footprints_enter used enters))
    exact absurd cancelled (live absent job here)
  · obtain ⟨was, there, same⟩ := steps.job id
      (C := fun i j => i.status ≠ .blocked → j.pendingDeps = i.pendingDeps ∧ j.status ≠ .blocked) (fun _ h => ⟨rfl, h⟩)
      (fun first second free => ⟨(second (first free).2).1.trans (first free).1, (second (first free).2).2⟩)
      (fun p enter => enters ⟨p, enter⟩) (fun _ _ step free => step.unblocked free) here
    exact ⟨was, there, fun free => (same free).1⟩

/-- Calls that cancel no blocked job keep the counters of the cancelled ones at zero. -/
theorem CancelledCounted.exec (counted : CancelledCounted db.toCore) (linked : Linked db.toCore)
    (minted : Minted db.toCore) (run : command.exec env db = .ok db') (keeps : ¬CancelsBlocked db db') :
    CancelledCounted db'.toCore := by
  intro id job here cancelled
  obtain ⟨was, there, same⟩ := Command.exec_cancelled run minted here cancelled
  have free : was.status ≠ .blocked := fun blocked => keeps ⟨id, was, job, there, blocked, here, cancelled⟩
  rw [same free]
  by_cases before : was.status = .cancelled
  · exact counted id was there before
  · rw [linked.counted id was there before, edgesOf_eq_zero (linked.free there free), Nat.cast_zero]

end Cancelled

end Taskq
