import Taskq.Contract.Acceptance
import Taskq.Contract.BulkSpecs

/-! `try_enqueue` against `enqueue`. A live holder of the key answers before the arguments are checked and
before a step is compared with its replay, so the two calls agree exactly where those checks pass. -/
namespace Taskq
open Relational

variable {env : Env} {db db' : Db} {a : EnqueueArgs} {m : Membership} {q : Queue} {id : Uuid}

/-- The state in which a queue has no depth limit. -/
def Db.unlimited (db : Db) (queue : String) : Db :=
  match db.queues.get? queue with
  | none => db
  | some q => { db with queues := db.queues.put queue { q with maxDepth := none } }

/-- What `enqueue` answers, `try_enqueue` answers as a verdict: a full queue that is the only obstacle to a new job
is a rejection with a hint, and every other error is the same. -/
structure TryAgrees (env : Env) (a : EnqueueArgs) (db : Db) : Prop where
  accepted : ∀ id db', enqueue env a db = .ok ((id, true), db') →
    tryEnqueue env a db = .ok ((.accepted, some id, none), db')
  existed : ∀ id db', (enqueue env a db = .ok ((id, false), db') ∨
      enqueue env a (db.unlimited a.queue) = .ok ((id, false), db')) →
    ∃ db'', tryEnqueue env a db = .ok ((.existed, some id, none), db'')
  rejected : ∀ e id db', enqueue env a db = .error e → e.state = .tq429 →
    enqueue env a (db.unlimited a.queue) = .ok ((id, true), db') →
    ∃ hint, 1 ≤ hint ∧ tryEnqueue env a db = .ok ((.rejectedDepth, none, some hint), db)
  refused : ∀ e, enqueue env a db = .error e → e.state ≠ .tq429 → tryEnqueue env a db = .error e

/-- The live job of the queue that has the key of the call. -/
def liveHolder (a : EnqueueArgs) (db : Db) : Option (Uuid × Job) := a.idempotencyKey.bind (keyHolder db.toCore a.queue)

/-- The queue has room for another waiting job. -/
def hasRoom (a : EnqueueArgs) (db : Db) : Bool :=
  (db.queues.get? a.queue).any fun q => q.maxDepth.all fun n => queueDepth db a.queue < n

/-- The workflow part of `enqueue` lets a call with a live holder pass: there is no workflow, the step is the
holder's, or the step is new and the queue is full. -/
def holderPasses (env : Env) (a : EnqueueArgs) (db : Db) (holder : Uuid) : Bool :=
  match resolveMembership env a db with
  | .error _ => false
  | .ok .ordinary => true
  | .ok (.existing id) => id = holder
  | .ok (.member ..) => !hasRoom a db

/-- The arguments pass the checks of `enqueue`, together with the defaults of their queue. -/
def argumentsPass (a : EnqueueArgs) (db : Db) : Bool :=
  (checkEnqueue a).isOk && (db.queues.get? a.queue).any fun q =>
    a.backoffBase.getD q.defaultBackoffBase ≤ a.backoffCap.getD q.defaultBackoffCap

/-- No live job has the key, or the checks that the existence check leaves out would pass. -/
def agreeable (env : Env) (a : EnqueueArgs) (db : Db) : Bool :=
  match checkAdmissionOwner env a.queue db, liveHolder a db with
  | .error _, _ => argumentsPass a db
  | .ok (), none => true
  | .ok (), some (holder, _) => argumentsPass a db && holderPasses env a db holder

section States

theorem ensure_seq_error {p : Prop} [Decidable p] {e raised : SqlError} {rest : Call Unit} {state : SqlState}
    (own : e.state = state) (others : rest = .error raised → raised.state = state)
    (run : (do ensure p e; rest) = .error raised) : raised.state = state := by
  obtain ⟨-, rfl⟩ | ⟨-, -, later⟩ := seq_eq_error.mp run |>.imp_left ensure_eq_error.mp
  · exact own
  · exact others later

/-- The state of every error that the checks of the arguments raise. -/
theorem checkEnqueue_error {e : SqlError} (raised : checkEnqueue a = .error e) : e.state = .tq422 := by
  revert raised
  unfold checkEnqueue
  -- one step for each check but the last
  iterate 18 refine ensure_seq_error rfl ?_
  intro raised
  obtain ⟨-, rfl⟩ := ensure_eq_error.mp raised
  rfl

theorem checkAdmissionOwner_error {e : SqlError} {queue : String}
    (raised : checkAdmissionOwner env queue db = .error e) : e.state = .tq425 := by
  unfold checkAdmissionOwner at raised
  split at raised
  · cases raised
  · simp only [seq_eq_error, ensure_eq_error] at raised
    obtain ⟨-, rfl⟩ | ⟨-, -, -, rfl⟩ := raised <;> rfl

theorem storeJob_error {r : JobRow} {e : SqlError} (raised : storeJob r = .error e) : e.state ≠ .tq429 := by
  have range {n : ℤ} (out : int2 n = .error e) : e.state ≠ .tq429 := by
    unfold int2 at out
    split_ifs at out
    cases out
    decide
  simp only [storeJob, seq_eq_error] at raised
  obtain out | ⟨_, -, out | ⟨_, -, out | ⟨_, -, out | ⟨_, -, out | ⟨_, -, out | ⟨_, -, out | ⟨_, -, raised⟩⟩⟩⟩⟩⟩⟩ :=
    raised
  iterate 7 exact range out
  split_ifs at raised
  cases raised
  decide

theorem liveParents_error {w : Uuid} {parents : List (Uuid × Job)} {e : SqlError}
    (raised : liveParents w parents = .error e) : e.state ≠ .tq429 := by
  induction parents with
  | nil => cases raised
  | cons head parents ih =>
    simp only [liveParents, seq_eq_error, ensure_eq_error] at raised
    obtain ⟨-, rfl⟩ | ⟨-, -, ⟨-, rfl⟩ | ⟨-, -, raised | ⟨_, -, raised⟩⟩⟩ := raised
    · decide
    · decide
    · exact ih raised
    · cases raised

theorem liveDependencies_error {w : Uuid} {deps : List Uuid} {e : SqlError}
    (raised : liveDependencies w deps db = .error e) : e.state ≠ .tq429 := by
  simp only [liveDependencies, seq_eq_error, ensure_eq_error] at raised
  obtain raised | ⟨_, -, ⟨-, rfl⟩ | ⟨_, -, raised⟩⟩ := raised
  · exact liveParents_error raised
  · decide
  · cases raised

/-- No step before the depth check answers as the depth check does. -/
theorem resolveMembership_error {e : SqlError} (raised : resolveMembership env a db = .error e) :
    e.state ≠ .tq429 := by
  unfold resolveMembership at raised
  split at raised
  · cases raised
  · simp only [seq_eq_error] at raised
    obtain owner | ⟨-, -, raised⟩ := raised
    · rw [checkAdmissionOwner_error owner]
      decide
    split at raised
    · cases raised
      decide
    · simp only [seq_eq_error, ensure_eq_error] at raised
      obtain ⟨-, rfl⟩ | ⟨-, -, raised⟩ := raised
      · decide
      split at raised
      · simp only [seq_eq_error, ensure_eq_error] at raised
        obtain ⟨-, rfl⟩ | ⟨_, -, raised⟩ := raised
        · decide
        · cases raised
      · simp only [seq_eq_error, ensure_eq_error] at raised
        obtain ⟨-, rfl⟩ | ⟨-, -, raised | ⟨_, -, raised⟩⟩ := raised
        · decide
        · exact liveDependencies_error raised
        · cases raised

theorem reservePlace_error {e : SqlError} (raised : reservePlace m db = .error e) : e.state ≠ .tq429 := by
  unfold reservePlace at raised
  split at raised
  · simp only [reserveWorkflowMembers, seq_eq_error, ensure_eq_error] at raised
    obtain ⟨-, rfl⟩ | ⟨-, -, raised⟩ := raised
    · decide
    split at raised
    · cases raised
      decide
    simp only [seq_eq_error, ensure_eq_error] at raised
    obtain ⟨-, rfl⟩ | ⟨-, -, raised⟩ := raised
    · decide
    split at raised
    · cases raised
    · cases raised
      decide
    · split_ifs at raised
      · simp only [seq_eq_error, putCounts, ensure_eq_error] at raised
        obtain (⟨-, rfl⟩ | ⟨_, -, raised⟩) | ⟨_, -, raised⟩ := raised
        · decide
        · cases raised
        · cases raised
      · cases raised
        decide
    · cases raised
      decide
  · cases raised

end States

section Runs

/-! `enqueue` after its checks, by what it finds out about the workflow. -/

theorem argumentsPass_iff : argumentsPass a db = true ↔ checkEnqueue a = .ok () ∧ ∃ q, db.queues.get? a.queue = some q ∧
    a.backoffBase.getD q.defaultBackoffBase ≤ a.backoffCap.getD q.defaultBackoffCap := by
  unfold argumentsPass
  rw [Bool.and_eq_true, Option.any_eq_true]
  simp only [decide_eq_true_eq]
  refine and_congr_left fun _ => ?_
  cases checkEnqueue a with
  | error e => simp [Except.isOk, Except.toBool]
  | ok u => simp [Except.isOk, Except.toBool]

theorem enqueue_unpassed (env : Env) (unpassed : ¬argumentsPass a db = true) :
    ∃ e, enqueue env a db = .error e ∧ (e.state = .tq422 ∨ e.state = .tq001) := by
  cases checked : checkEnqueue a with
  | error e => exact ⟨e, by simp only [enqueue, checked]; rfl, .inl (checkEnqueue_error checked)⟩
  | ok u =>
    cases stored : db.queues.get? a.queue with
    | none => exact ⟨_, by simp only [enqueue, checked, stored]; rfl, .inr rfl⟩
    | some q =>
      have order : ¬a.backoffBase.getD q.defaultBackoffBase ≤ a.backoffCap.getD q.defaultBackoffCap :=
        fun order => unpassed (argumentsPass_iff.mpr ⟨checked, q, stored, order⟩)
      refine ⟨tq422 "backoff_cap is below backoff_base", ?_, .inl rfl⟩
      simp only [enqueue, checked, stored, ensure, if_neg order]
      rfl

/-- The call on a queue `q` once its arguments have passed. -/
theorem enqueue_passed (env : Env) (passed : argumentsPass a db = true) : ∃ q, db.queues.get? a.queue = some q ∧
    enqueue env a db = (do
      let m ← resolveMembership env a db
      match m with
      | .existing id => .ok ((id, false), db)
      | _ => do
        ensure (q.maxDepth.all fun n => queueDepth db a.queue < n) (.mk' .tq429 "queue is at max_depth")
        let r := a.row env q m
        let ((id, created), db) ← insertOrConverge env a r m 3 db
        if created then do
          let db ← finishEnqueue env id r m.live q db
          .ok ((id, true), db)
        else .ok ((id, false), db)) := by
  obtain ⟨checked, q, stored, order⟩ := argumentsPass_iff.mp passed
  refine ⟨q, stored, ?_⟩
  simp only [enqueue, checked, stored, ensure, if_pos order]
  rfl

theorem enqueue_unresolved {e : SqlError} (passed : argumentsPass a db = true)
    (raised : resolveMembership env a db = .error e) : enqueue env a db = .error e := by
  obtain ⟨q, -, run⟩ := enqueue_passed env passed
  rw [run, raised]
  rfl

theorem enqueue_existing (passed : argumentsPass a db = true) (found : resolveMembership env a db = .ok (.existing id)) :
    enqueue env a db = .ok ((id, false), db) := by
  obtain ⟨q, -, run⟩ := enqueue_passed env passed
  rw [run, found]
  rfl

/-- A new member or an ordinary job meets the depth check. -/
def Membership.new : Membership → Bool
  | .existing _ => false
  | _ => true

theorem enqueue_full (passed : argumentsPass a db = true) (resolved : resolveMembership env a db = .ok m)
    (fresh : m.new = true) (full : ¬hasRoom a db = true) :
    enqueue env a db = .error (.mk' .tq429 "queue is at max_depth") := by
  obtain ⟨q, stored, run⟩ := enqueue_passed env passed
  have crowded : ¬(q.maxDepth.all fun n => queueDepth db a.queue < n) = true := by
    simpa only [hasRoom, stored, Option.any_some] using full
  rw [run, resolved]
  cases m with
  | existing id => cases fresh
  | ordinary | member =>
    simp only [bind, Except.bind, ensure, if_neg crowded]

theorem enqueue_room (passed : argumentsPass a db = true) (resolved : resolveMembership env a db = .ok m)
    (fresh : m.new = true) (room : hasRoom a db = true) : ∃ q, db.queues.get? a.queue = some q ∧
    enqueue env a db = (do
      let ((id, created), db) ← insertOrConverge env a (a.row env q m) m 3 db
      if created then do
        let db ← finishEnqueue env id (a.row env q m) m.live q db
        .ok ((id, true), db)
      else .ok ((id, false), db)) := by
  obtain ⟨q, stored, run⟩ := enqueue_passed env passed
  have roomy : (q.maxDepth.all fun n => queueDepth db a.queue < n) = true := by
    simpa only [hasRoom, stored, Option.any_some] using room
  refine ⟨q, stored, ?_⟩
  rw [run, resolved]
  cases m with
  | existing id => cases fresh
  | ordinary | member =>
    simp only [ensure, if_pos roomy]
    rfl

end Runs

section Holder

/-- A live holder of the key keeps a row of the same queue and key out. -/
theorem idemClash_eq_true {core : Core} {key : String} {holder : Uuid × Job} {r : JobRow}
    (holds : keyHolder core r.queue key = some holder) (keyed : r.idempotencyKey = some key)
    (active : r.status.active = true) (fresh : core.jobs.get? id = none) : idemClash core id r = true := by
  by_contra clear
  have free := idemClash_eq_false keyed active fresh (eq_false_of_ne_true clear)
  exact nomatch holds.symm.trans free

theorem row_active (env : Env) (a : EnqueueArgs) (q : Queue) (m : Membership) : (a.row env q m).status.active = true := by
  unfold EnqueueArgs.row
  dsimp only
  split_ifs <;> rfl

/-- The guard of an insert lets the owner's members in. -/
theorem guard_of_owner {r : JobRow} (owned : checkAdmissionOwner env r.queue db = .ok ()) :
    admissionOwnerGuardInsert env r db = .ok () := by
  unfold checkAdmissionOwner at owned
  unfold admissionOwnerGuardInsert
  cases bound : (db.queues.get? r.queue).bind (·.admissionOwnerOid) with
  | none => rfl
  | some owner =>
    rw [bound] at owned
    simp only [seq_eq_ok, ensure_eq_ok] at owned
    obtain ⟨-, exists', member⟩ := owned
    exact seq_eq_ok.mpr ⟨(), ensure_eq_ok.mpr exists', ensure_eq_ok.mpr (.inl member)⟩

/-- The guard of an insert raises what the owner check raises. -/
theorem guard_of_denied {r : JobRow} {e : SqlError} (unspent : Unspent env db)
    (producer : engineReserved r.idempotencyKey = false)
    (denied : checkAdmissionOwner env r.queue db = .error e) : admissionOwnerGuardInsert env r db = .error e := by
  have shut : ¬admissionOwnerGuardInsert env r db = .ok () := fun open' =>
    nomatch denied.symm.trans (unspent.owned producer rfl rfl open')
  unfold checkAdmissionOwner at denied
  unfold admissionOwnerGuardInsert at shut ⊢
  cases bound : (db.queues.get? r.queue).bind (·.admissionOwnerOid) with
  | none =>
    rw [bound] at denied
    cases denied
  | some owner =>
    rw [bound] at denied shut
    simp only [seq_eq_error, seq_eq_ok, ensure_eq_error, ensure_eq_ok] at denied shut ⊢
    obtain ⟨missing, rfl⟩ | ⟨-, exists', -, rfl⟩ := denied
    · exact .inl ⟨missing, rfl⟩
    · exact .inr ⟨(), exists', fun known => shut ⟨(), exists', known⟩, rfl⟩

/-- Whoever the owner check keeps out, the insert keeps out. -/
theorem insertOrConverge_denied {e : SqlError} {r : JobRow} (unspent : Unspent env db)
    (producer : engineReserved r.idempotencyKey = false) (denied : checkAdmissionOwner env r.queue db = .error e)
    (tries : ℕ) : insertOrConverge env a r .ordinary (tries + 1) db = .error e := by
  have guard : admissionOwnerGuardInsert env r { db with nextUuid := db.nextUuid + 1 } = .error e := by
    have shut : admissionOwnerGuardInsert env r db = .error e := guard_of_denied unspent producer denied
    exact shut
  have insert : insertJob env db.nextUuid r { db with nextUuid := db.nextUuid + 1 } = .error e := by
    simp only [insertJob, guard]
    rfl
  have attempt : tryInsert env db.nextUuid r .ordinary { db with nextUuid := db.nextUuid + 1 } = .error e := by
    have state : e.state ≠ .uniqueViolation := by
      rw [checkAdmissionOwner_error denied]
      decide
    simp only [tryInsert, reservePlace]
    rw [show (Except.ok { db with nextUuid := db.nextUuid + 1 } : Call Db) >>= (insertJob env db.nextUuid r ·) =
      .error e from insert]
    exact if_neg state
  simp only [insertOrConverge, newUuid, attempt]
  rfl

/-- An ordinary job with a live holder converges on it. -/
theorem insertOrConverge_held {holder : Uuid × Job} (unspent : Unspent env db) (passed : argumentsPass a db = true)
    (stored : db.queues.get? a.queue = some q) (alone : a.workflowId = none)
    (owned : checkAdmissionOwner env a.queue db = .ok ()) (held : liveHolder a db = some holder) (tries : ℕ) :
    insertOrConverge env a (a.row env q .ordinary) .ordinary (tries + 1) db =
      .ok ((holder.1, false), { db with nextUuid := db.nextUuid + 1 }) := by
  obtain ⟨checked, -⟩ := argumentsPass_iff.mp passed
  obtain ⟨key, keyed, holds⟩ := Option.bind_eq_some_iff.mp held
  obtain ⟨job, stores⟩ : ∃ job, storeJob (a.row env q .ordinary) = .ok job :=
    row_stores checked alone (unspent.profiled _ _ stored)
  have clash : idemClash db.toCore db.nextUuid (a.row env q .ordinary) = true :=
    idemClash_eq_true (r := a.row env q .ordinary) holds keyed (row_active env a q _) unspent.fresh
  have attempt : tryInsert env db.nextUuid (a.row env q .ordinary) .ordinary { db with nextUuid := db.nextUuid + 1 } =
      .ok none := by
    have insert : insertJob env db.nextUuid (a.row env q .ordinary) { db with nextUuid := db.nextUuid + 1 } =
        .ok none := by
      have guard : admissionOwnerGuardInsert env (a.row env q .ordinary) db = .ok () := guard_of_owner owned
      refine seq_eq_ok.mpr ⟨(), guard, seq_eq_ok.mpr ⟨job, stores, ?_⟩⟩
      exact if_pos clash
    simp only [tryInsert, reservePlace]
    rw [show (Except.ok { db with nextUuid := db.nextUuid + 1 } : Call Db) >>=
      (insertJob env db.nextUuid (a.row env q .ordinary) ·) = .ok none from insert]
  have converge : convergeOn a .ordinary { db with nextUuid := db.nextUuid + 1 } = .ok (some holder.1) :=
    congrArg (fun found => Except.ok (Option.map Prod.fst found)) held
  simp only [insertOrConverge, newUuid, attempt]
  exact seq_eq_ok.mpr ⟨none, rfl, seq_eq_ok.mpr ⟨_, converge, rfl⟩⟩

theorem resolveMembership_member {w : Uuid} {workflow : Workflow} {hash : String} {live : List Uuid}
    (resolved : resolveMembership env a db = .ok (.member w workflow hash live)) :
    stepHolder db.toCore w a.stepKey = none := by
  unfold resolveMembership at resolved
  split at resolved
  · cases resolved
  · simp only [seq_eq_ok] at resolved
    obtain ⟨-, -, resolved⟩ := resolved
    split at resolved
    · cases resolved
    · simp only [seq_eq_ok] at resolved
      obtain ⟨-, -, resolved⟩ := resolved
      split at resolved
      · simp only [seq_eq_ok] at resolved
        obtain ⟨-, -, finish⟩ := resolved
        cases finish
      · rename_i free
        simp only [seq_eq_ok] at resolved
        obtain ⟨-, -, _, -, finish⟩ := resolved
        cases finish
        exact free

/-- A new step never converges: a holder of its key is another step. -/
theorem convergeOn_member {w : Uuid} {workflow : Workflow} {hash : String} {live : List Uuid}
    (free : stepHolder db.toCore w a.stepKey = none) : convergeOn a (.member w workflow hash live) db =
      if (liveHolder a db).isSome then .error stepMismatch else .ok none := by
  have live' : a.idempotencyKey.bind (keyHolder db.toCore a.queue) = liveHolder a db := rfl
  simp only [convergeOn, free, live']
  cases held : liveHolder a db with
  | none => rfl
  | some holder =>
    obtain ⟨id, holder⟩ := holder
    obtain ⟨key, -, holds⟩ := Option.bind_eq_some_iff.mp held
    have other : ¬(holder.workflowId = some w ∧ holder.stepKey = a.stepKey ∧
        sameStep workflow hash holder.toJobRow = true) := by
      rintro ⟨member, step, -⟩
      exact stepHolder_eq_none free (keyHolder_eq_some holds).1 ⟨member, step⟩
    simp only [ensure, if_neg other]
    rfl

/-- A new step whose key has a live holder is refused. -/
theorem insertOrConverge_member {w : Uuid} {workflow : Workflow} {hash : String} {live : List Uuid} {r : JobRow}
    {holder : Uuid × Job} (free : stepHolder db.toCore w a.stepKey = none)
    (owned : checkAdmissionOwner env r.queue db = .ok ()) (queue : r.queue = a.queue)
    (keyed : r.idempotencyKey = a.idempotencyKey) (active : r.status.active = true) (unused : db.jobs.get? db.nextUuid = none)
    (held : liveHolder a db = some holder) (tries : ℕ) : ∃ e, e.state ≠ .tq429 ∧
      insertOrConverge env a r (.member w workflow hash live) (tries + 1) db = .error e := by
  obtain ⟨key, given, holds⟩ := Option.bind_eq_some_iff.mp held
  have refused : convergeOn a (.member w workflow hash live) { db with nextUuid := db.nextUuid + 1 } =
      .error stepMismatch := by
    have free' : stepHolder { db with nextUuid := db.nextUuid + 1 }.toCore w a.stepKey = none := free
    rw [convergeOn_member free']
    exact if_pos (by rw [show liveHolder a { db with nextUuid := db.nextUuid + 1 } = some holder from held]; rfl)
  have attempt : (∃ e, e.state ≠ .tq429 ∧ tryInsert env db.nextUuid r (.member w workflow hash live)
      { db with nextUuid := db.nextUuid + 1 } = .error e) ∨
      tryInsert env db.nextUuid r (.member w workflow hash live) { db with nextUuid := db.nextUuid + 1 } = .ok none := by
    cases place : reservePlace (.member w workflow hash live) { db with nextUuid := db.nextUuid + 1 } with
    | error e =>
      refine .inl ⟨e, reservePlace_error place, ?_⟩
      have state : e.state ≠ .uniqueViolation := fun state => reserveWorkflowMembers_collides ⟨e, place, state⟩
      simp only [tryInsert, place]
      exact if_neg state
    | ok reserved =>
      obtain ⟨counts, rfl⟩ : ∃ counts, reserved = { db with nextUuid := db.nextUuid + 1, memberCounts := counts } :=
        reserveWorkflowMembers_frame place
      have guard : admissionOwnerGuardInsert env r db = .ok () := guard_of_owner owned
      have clash : idemClash db.toCore db.nextUuid r = true :=
        idemClash_eq_true (queue.symm ▸ holds) (keyed.trans given) active unused
      cases stores : storeJob r with
      | error e =>
        have insert : insertJob env db.nextUuid r
            { db with nextUuid := db.nextUuid + 1, memberCounts := counts } = .error e :=
          seq_eq_error.mpr (.inr ⟨(), guard, by rw [stores]; rfl⟩)
        refine .inl ⟨e, storeJob_error stores, ?_⟩
        simp only [tryInsert, place]
        rw [show (Except.ok _ : Call Db) >>= (insertJob env db.nextUuid r ·) = .error e from insert]
        exact if_neg fun state => storeJob_collides ⟨e, stores, state⟩
      | ok job =>
        have insert : insertJob env db.nextUuid r
            { db with nextUuid := db.nextUuid + 1, memberCounts := counts } = .ok none :=
          seq_eq_ok.mpr ⟨(), guard, seq_eq_ok.mpr ⟨job, stores, if_pos clash⟩⟩
        right
        simp only [tryInsert, place]
        rw [show (Except.ok _ : Call Db) >>= (insertJob env db.nextUuid r ·) = .ok none from insert]
  obtain ⟨e, state, raised⟩ | none' := attempt
  · exact ⟨e, state, by simp only [insertOrConverge, newUuid, raised]; rfl⟩
  · refine ⟨stepMismatch, by decide, ?_⟩
    simp only [insertOrConverge, newUuid, none', refused]
    rfl

end Holder

section Outcomes

/-- A job that is created is admitted by the owner, and no live job had its key. -/
theorem enqueue_created (unspent : Unspent env db) (run : enqueue env a db = .ok ((id, true), db')) :
    checkAdmissionOwner env a.queue db = .ok () ∧ liveHolder a db = none := by
  have outcome := enqueue_enqueued run
  cases outcome with
  | @created n q m _ _ _ _ admissible _ _ taken insert =>
    obtain ⟨counts, rfl⟩ := reservePlace_frame taken
    obtain ⟨⟨⟩, guard, -⟩ := seq_eq_ok.mp insert
    refine ⟨unspent.owned (r := a.row env q m) admissible.1 rfl rfl guard, ?_⟩
    obtain ⟨_, _, _, -, -, clear, fresh, -⟩ := insertJob_frame insert
    unfold liveHolder
    cases keyed : a.idempotencyKey with
    | none => rfl
    | some key => exact idemClash_eq_false (r := a.row env q m) keyed (row_active env a q m) fresh clear

/-- A job that is found is the holder of the step, or outside workflows the live holder of the key. -/
theorem enqueue_found (unspent : Unspent env db) (run : enqueue env a db = .ok ((id, false), db')) :
    argumentsPass a db = true ∧ checkAdmissionOwner env a.queue db = .ok () ∧
      (resolveMembership env a db = .ok (.existing id) ∨
        resolveMembership env a db = .ok .ordinary ∧ (liveHolder a db).map (·.1) = some id) := by
  have passed : argumentsPass a db = true := by
    by_contra unpassed
    obtain ⟨e, raised, -⟩ := enqueue_unpassed env unpassed
    exact nomatch run.symm.trans raised
  refine ⟨passed, ?_⟩
  have admissible := (checkEnqueue_admissible (argumentsPass_iff.mp passed).1).1
  cases resolved : resolveMembership env a db with
  | error e => exact nomatch run.symm.trans (enqueue_unresolved passed resolved)
  | ok m =>
    have converged (fresh : m.new = true) : ∃ q, convergeOn a m db = .ok (some id) ∧ ∀ e,
        insertOrConverge env a (a.row env q m) m 3 db ≠ .error e := by
      have room : hasRoom a db = true := by
        by_contra full
        exact nomatch run.symm.trans (enqueue_full passed resolved fresh full)
      obtain ⟨q, -, rest⟩ := enqueue_room passed resolved fresh room
      rw [rest] at run
      obtain ⟨⟨⟨other, created⟩, last⟩, insert, run⟩ := seq_eq_ok.mp run
      refine ⟨q, ?_, fun e raised => nomatch insert.symm.trans raised⟩
      have outcome := insertOrConverge_inserted insert
      cases outcome with
      | created =>
        obtain ⟨_, -, done⟩ := seq_eq_ok.mp run
        cases done
      | held holder =>
        cases run
        exact holder
    cases m with
    | existing other =>
      cases run.symm.trans (enqueue_existing passed resolved)
      refine ⟨?_, .inl rfl⟩
      unfold resolveMembership at resolved
      split at resolved
      · cases resolved
      · obtain ⟨⟨⟩, owned, -⟩ := seq_eq_ok.mp resolved
        exact owned
    | ordinary =>
      obtain ⟨q, holder, open'⟩ := converged rfl
      refine ⟨?_, .inr ⟨rfl, Except.ok.inj holder⟩⟩
      cases owner : checkAdmissionOwner env a.queue db with
      | ok u => rfl
      | error e => exact absurd (insertOrConverge_denied (r := a.row env q .ordinary) unspent admissible.1 owner 2) (open' e)
    | member w workflow hash live =>
      obtain ⟨q, holder, -⟩ := converged rfl
      rw [convergeOn_member (resolveMembership_member resolved)] at holder
      split_ifs at holder
      cases holder

/-- Whoever the owner check keeps out meets the depth limit or the owner check. -/
theorem enqueue_denied {e raised : SqlError} (unspent : Unspent env db) (passed : argumentsPass a db = true)
    (denied : checkAdmissionOwner env a.queue db = .error e) (run : enqueue env a db = .error raised)
    (other : raised.state ≠ .tq429) : raised = e := by
  have admissible := (checkEnqueue_admissible (argumentsPass_iff.mp passed).1).1
  cases ordinary : a.workflowId with
  | some w =>
    have resolved : resolveMembership env a db = .error e := by
      simp only [resolveMembership, ordinary, denied]
      rfl
    exact Except.error.inj (run.symm.trans (enqueue_unresolved passed resolved))
  | none =>
    have resolved : resolveMembership env a db = .ok .ordinary := by
      simp only [resolveMembership, ordinary]
    by_cases room : hasRoom a db = true
    · obtain ⟨q, -, rest⟩ := enqueue_room passed resolved rfl room
      rw [insertOrConverge_denied (r := a.row env q .ordinary) unspent admissible.1 denied 2] at rest
      exact Except.error.inj (run.symm.trans rest)
    · cases run.symm.trans (enqueue_full passed resolved rfl room)
      exact absurd rfl other

/-- The only error that a call with a live holder of its key meets in the cases of `holderPasses` is the depth
limit. -/
theorem enqueue_held_full {holder : Uuid × Job} {e : SqlError} (unspent : Unspent env db) (passed : argumentsPass a db = true)
    (owned : checkAdmissionOwner env a.queue db = .ok ()) (held : liveHolder a db = some holder)
    (passes : holderPasses env a db holder.1 = true) (run : enqueue env a db = .error e) : e.state = .tq429 := by
  unfold holderPasses at passes
  split at passes
  · cases passes
  · rename_i resolved
    by_cases room : hasRoom a db = true
    · obtain ⟨q, stored, rest⟩ := enqueue_room passed resolved rfl room
      have alone : a.workflowId = none := by
        unfold resolveMembership at resolved
        split at resolved
        · assumption
        · obtain ⟨-, -, resolved⟩ := seq_eq_ok.mp resolved
          split at resolved
          · cases resolved
          · obtain ⟨-, -, resolved⟩ := seq_eq_ok.mp resolved
            split at resolved
            · obtain ⟨-, -, finish⟩ := seq_eq_ok.mp resolved
              cases finish
            · obtain ⟨-, -, resolved⟩ := seq_eq_ok.mp resolved
              obtain ⟨_, -, finish⟩ := seq_eq_ok.mp resolved
              cases finish
      rw [insertOrConverge_held unspent passed stored alone owned held 2] at rest
      exact nomatch run.symm.trans rest
    · cases run.symm.trans (enqueue_full passed resolved rfl room)
      rfl
  · rename_i resolved
    exact nomatch run.symm.trans (enqueue_existing passed resolved)
  · rename_i resolved
    cases run.symm.trans (enqueue_full passed resolved rfl (by simpa using passes))
    rfl

end Outcomes

section Unlimited

@[simp] theorem Db.unlimited_toCore (db : Db) (queue : String) : (db.unlimited queue).toCore = db.toCore := by
  unfold Db.unlimited
  split <;> rfl

theorem Unspent.unlimited (unspent : Unspent env db) (queue : String) : Unspent env (db.unlimited queue) := by
  unfold Db.unlimited
  split
  · exact unspent
  · rename_i q stored
    refine ⟨unspent.fresh, unspent.named, unspent.unproven, fun name other here => ?_⟩
    rw [Table.get?_put] at here
    split_ifs at here with own
    · cases here
      exact (unspent.profiled _ _ stored).congr rfl
    · exact unspent.profiled _ _ here

theorem checkAdmissionOwner_unlimited (env : Env) (db : Db) (queue : String) :
    checkAdmissionOwner env queue (db.unlimited queue) = checkAdmissionOwner env queue db := by
  unfold checkAdmissionOwner Db.unlimited
  cases stored : db.queues.get? queue with
  | none => simp only [stored]
  | some q => simp only [Table.get?_put_self]; rfl

theorem liveHolder_unlimited (a : EnqueueArgs) (db : Db) : liveHolder a (db.unlimited a.queue) = liveHolder a db := by
  unfold liveHolder
  rw [Db.unlimited_toCore]

theorem resolveMembership_unlimited (env : Env) (a : EnqueueArgs) (db : Db) :
    resolveMembership env a (db.unlimited a.queue) = resolveMembership env a db := by
  unfold resolveMembership liveDependencies
  rw [checkAdmissionOwner_unlimited, Db.unlimited_toCore]

theorem argumentsPass_unlimited (a : EnqueueArgs) (db : Db) :
    argumentsPass a (db.unlimited a.queue) = argumentsPass a db := by
  unfold argumentsPass Db.unlimited
  cases stored : db.queues.get? a.queue with
  | none => simp only [stored]
  | some q => simp only [Table.get?_put_self, Option.any_some]

end Unlimited

section Agreement

theorem tryEnqueue_denied {e : SqlError} (denied : checkAdmissionOwner env a.queue db = .error e) :
    tryEnqueue env a db = .error e := by
  unfold tryEnqueue
  rw [denied]
  rfl

theorem tryEnqueue_held {holder : Uuid × Job} (owned : checkAdmissionOwner env a.queue db = .ok ())
    (held : liveHolder a db = some holder) : tryEnqueue env a db = .ok ((.existed, some holder.1, none), db) := by
  unfold liveHolder at held
  unfold tryEnqueue
  rw [owned, held]
  rfl

theorem tryEnqueue_free (owned : checkAdmissionOwner env a.queue db = .ok ()) (free : liveHolder a db = none) :
    tryEnqueue env a db = match enqueue env a db with
      | .ok ((id, created), db) => .ok ((if created then .accepted else .existed, some id, none), db)
      | .error e => if e.state = .tq429 then .ok ((.rejectedDepth, none, some (retryHint env a.queue db)), db)
        else .error e := by
  unfold liveHolder at free
  unfold tryEnqueue
  rw [owned, free]
  rfl

/-- A full queue asks for at least one second. -/
theorem retryHint_pos (profiled : ∀ name q, db.queues.get? name = some q → q.Profiled) (queue : String) :
    1 ≤ retryHint env queue db := by
  have fallback : 1 ≤ retryHint.fallback queue db := by
    unfold retryHint.fallback
    cases stored : db.queues.get? queue with
    | none => decide
    | some q => exact (profiled queue q stored).retry
  unfold retryHint
  split
  · split_ifs
    · exact le_min (by decide) (le_max_left _ _)
    · exact fallback
  · exact fallback

theorem agrees_of_agreeable (unspent : Unspent env db) (agrees : agreeable env a db = true) : TryAgrees env a db := by
  have unlimited := unspent.unlimited a.queue
  -- what `enqueue` finds without the depth limit, it finds with it
  have found (id : Uuid) (db' : Db) (run : enqueue env a db = .ok ((id, false), db') ∨
      enqueue env a (db.unlimited a.queue) = .ok ((id, false), db')) :
      argumentsPass a db = true ∧ checkAdmissionOwner env a.queue db = .ok () ∧
        (resolveMembership env a db = .ok (.existing id) ∨
          resolveMembership env a db = .ok .ordinary ∧ (liveHolder a db).map (·.1) = some id) := by
    obtain run | run := run
    · exact enqueue_found unspent run
    · have found := enqueue_found unlimited run
      rwa [argumentsPass_unlimited, checkAdmissionOwner_unlimited, resolveMembership_unlimited,
        liveHolder_unlimited] at found
  have created (id : Uuid) (db' : Db) (run : enqueue env a (db.unlimited a.queue) = .ok ((id, true), db')) :
      checkAdmissionOwner env a.queue db = .ok () ∧ liveHolder a db = none := by
    have facts := enqueue_created unlimited run
    rwa [checkAdmissionOwner_unlimited, liveHolder_unlimited] at facts
  unfold agreeable at agrees
  split at agrees
  case h_1 e denied =>
    refine ⟨fun id db' run => ?_, fun id db' run => ?_, fun _ id db' _ _ run => ?_, fun raised run other => ?_⟩
    · exact nomatch denied.symm.trans (enqueue_created unspent run).1
    · exact nomatch denied.symm.trans (found id db' run).2.1
    · exact nomatch denied.symm.trans (created id db' run).1
    · rw [enqueue_denied unspent agrees denied run other]
      exact tryEnqueue_denied denied
  case h_2 owned free =>
    have answer := tryEnqueue_free owned free
    refine ⟨fun id db' run => ?_, fun id db' run => ?_, fun e id db' raised state _ => ?_, fun e raised other => ?_⟩
    · rw [answer, run]
      rfl
    · obtain ⟨passed, -, existing | ⟨-, holder⟩⟩ := found id db' run
      · rw [enqueue_existing passed existing] at answer
        exact ⟨_, answer⟩
      · rw [free] at holder
        cases holder
    · rw [answer, raised]
      exact ⟨_, retryHint_pos unspent.profiled a.queue, if_pos state⟩
    · rw [answer, raised]
      exact if_neg other
  case h_3 holder job owned held =>
    have answer := tryEnqueue_held owned held
    obtain ⟨passed, passes⟩ := Bool.and_eq_true_iff.mp agrees
    refine ⟨fun id db' run => ?_, fun id db' run => ?_, fun e id db' _ _ run => ?_, fun e raised other => ?_⟩
    · exact nomatch held.symm.trans (enqueue_created unspent run).2
    · suffices same : id = holder from ⟨db, same ▸ answer⟩
      obtain ⟨-, -, existing | ⟨-, found⟩⟩ := found id db' run
      · simp only [holderPasses, existing, decide_eq_true_eq] at passes
        exact passes
      · rw [held] at found
        exact (Option.some.inj found).symm
    · exact nomatch held.symm.trans (created id db' run).2
    · exact absurd (enqueue_held_full unspent passed owned held passes raised) other

theorem agreeable_of_agrees (unspent : Unspent env db) (agrees : TryAgrees env a db) : agreeable env a db = true := by
  have passed (answered : ∀ e, tryEnqueue env a db = .error e → e.state = .tq425) : argumentsPass a db = true := by
    by_contra unpassed
    obtain ⟨e, raised, state⟩ := enqueue_unpassed env unpassed
    have depth : e.state ≠ .tq429 := by
      obtain state | state := state <;> rw [state] <;> decide
    have owner := answered e (agrees.refused e raised depth)
    obtain state | state := state <;> cases owner.symm.trans state
  unfold agreeable
  split
  case h_1 e denied =>
    refine passed fun e raised => ?_
    cases (tryEnqueue_denied denied).symm.trans raised
    exact checkAdmissionOwner_error denied
  case h_2 => rfl
  case h_3 holder job owned held =>
    have answer := tryEnqueue_held owned held
    have passed := passed fun e raised => nomatch answer.symm.trans raised
    refine Bool.and_eq_true_iff.mpr ⟨passed, ?_⟩
    have unraised (e : SqlError) (state : e.state ≠ .tq429) : enqueue env a db ≠ .error e := fun raised =>
      nomatch answer.symm.trans (agrees.refused e raised state)
    unfold holderPasses
    split
    · rename_i e resolved
      exact absurd (enqueue_unresolved passed resolved) (unraised e (resolveMembership_error resolved))
    · rfl
    · rename_i id resolved
      obtain ⟨_, same⟩ := agrees.existed id db (.inl (enqueue_existing passed resolved))
      cases answer.symm.trans same
      exact decide_eq_true rfl
    · rename_i w workflow hash live resolved
      by_contra room
      obtain ⟨q, -, rest⟩ := enqueue_room passed resolved rfl (by simpa using room)
      obtain ⟨e, state, raised⟩ : ∃ e, e.state ≠ .tq429 ∧ insertOrConverge env a (a.row env q (.member w workflow hash live))
          (.member w workflow hash live) 3 db = .error e :=
        insertOrConverge_member (resolveMembership_member resolved) owned rfl rfl (row_active env a q _) unspent.fresh held 2
      rw [raised] at rest
      exact unraised e state rest

variable {site : Site} {allowed : System → Env → Command → Prop} {s : System}

/-- `try_enqueue` answers as `enqueue` does exactly where no live job has the key, or what the early existence check
leaves out would pass. -/
theorem try_enqueue_agrees (reachable : System.Reachable site allowed s) (fresh : s.xid < env.xid) (a : EnqueueArgs) :
    TryAgrees env a s.db ↔ agreeable env a s.db = true :=
  ⟨agreeable_of_agrees (reachable.unspent fresh), agrees_of_agreeable (reachable.unspent fresh)⟩

/-- A job type and a key, and the call with the key alone. -/
def keyedArgs : EnqueueArgs := { EnqueueArgs.simple "q" with idempotencyKey := some "k" }

def untypedArgs : EnqueueArgs := { keyedArgs with jobType := none }

theorem try_enqueue_agrees_replay : ∃ s : System, System.Reachable .digits anyCall s ∧
    TryAgrees (.alone .digits 1 3) keyedArgs s.db := by
  have played : System.plays .digits [(0, .ensureQueue (some "q") none), (0, .enqueue keyedArgs)]
      (.installed .digits 0) (fun s => s.xid == 2 && agreeable (.alone .digits 1 3) keyedArgs s.db) = true := by
    decide +kernel
  obtain ⟨s, run, good⟩ := System.plays_run anyCall played fun _ _ _ => trivial
  simp only [Bool.and_eq_true, beq_iff_eq] at good
  obtain ⟨last, agreeable⟩ := good
  have reachable : System.Reachable .digits anyCall s := ⟨0, run⟩
  have fresh : s.xid < (Env.alone .digits 1 3).xid := last ▸ Nat.lt_succ_self 2
  exact ⟨s, reachable, (try_enqueue_agrees reachable fresh keyedArgs).mpr agreeable⟩

/-- A replay without a job type finds the job, where `enqueue` refuses the arguments. -/
theorem try_enqueue_skips_checks : ¬∀ (s : System) (env : Env) (a : EnqueueArgs),
    System.Reachable .digits anyCall s → s.xid < env.xid → TryAgrees env a s.db := by
  intro agrees
  have played : System.plays .digits [(0, .ensureQueue (some "q") none), (0, .enqueue keyedArgs)]
      (.installed .digits 0) (fun s => s.xid == 2 &&
        (enqueue (.alone .digits 1 3) untypedArgs s.db).toOption.isNone &&
        (tryEnqueue (.alone .digits 1 3) untypedArgs s.db).toOption.any fun answer =>
          answer.1.1 == .existed) = true := by
    decide +kernel
  obtain ⟨s, run, good⟩ := System.plays_run anyCall played fun _ _ _ => trivial
  simp only [Bool.and_eq_true, beq_iff_eq] at good
  obtain ⟨⟨last, refused⟩, existed⟩ := good
  have agree := agrees s (.alone .digits 1 3) untypedArgs ⟨0, run⟩ (last ▸ Nat.lt_succ_self 2)
  cases raised : enqueue (.alone .digits 1 3) untypedArgs s.db with
  | ok answer =>
    rw [raised] at refused
    cases refused
  | error e =>
    have early : enqueue (.alone .digits 1 3) untypedArgs s.db =
        .error (tq422 "job_type is required (<= 120 chars)") := rfl
    cases raised.symm.trans early
    rw [agree.refused _ early (by decide)] at existed
    cases existed

end Agreement

end Taskq
