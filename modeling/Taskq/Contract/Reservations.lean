import Taskq.Invariants.Profiles
import Taskq.Invariants.Receipts

/-! Two-phase admission: one job for a key, jobs only for the handle that holds the reservation, and
answers that stay while the row records them. -/
namespace Taskq
open Relational

variable {env : Env} {db db' : Db} {queue k : String} {key intent : Option String} {handle : Option Uuid}
  {job receipt : Option Jsonb} {id : Uuid} {a : Admission}

/-- The jobs that carry an admission of the key. -/
def carriers (db : Db) (queue key : String) : Set Uuid :=
  {jobId | ∃ job id a, db.jobs.get? jobId = some job ∧ job.admissionId = some id ∧
    db.admissions.get? id = some a ∧ a.slot = (queue, key)}

theorem Tied.carriers_subsingleton (tied : Tied db) (queue key : String) : (carriers db queue key).Subsingleton := by
  rintro jobId ⟨job, id, a, here, carries, stored, slot⟩ jobId' ⟨job', id', a', here', carries', stored', slot'⟩
  cases tied.slots id id' a a' stored stored' (slot.trans slot'.symm)
  obtain ⟨b, there, names⟩ := tied.carried jobId job id here carries
  obtain ⟨b', there', names'⟩ := tied.carried jobId' job' id here' carries'
  cases there.symm.trans there'
  exact Option.some.inj (names.symm.trans names')

section Finish

/-- The job that a finish creates, and for whom. -/
structure Creates (env : Env) (queue : String) (key : Option String) (handle : Option Uuid)
    (answer : FinishResult) (db db' : Db) : Prop where
  holds : ∃ k id a jobId, key = some k ∧ admissionByKey db queue k = some (id, a) ∧ handle = some a.handle ∧
    a.state = .reserved ∧ env.now < a.reservationExpiresAt ∧ answer.jobId = some jobId ∧
    db.jobs.get? jobId = none ∧ (∃ job, db'.jobs.get? jobId = some job ∧ job.admissionId = some id) ∧
    ∀ other, other ≠ jobId → db'.jobs.get? other = db.jobs.get? other

theorem finishAdmission_creates {answer : FinishResult}
    (run : finishAdmission env queue key handle job receipt db = .ok (answer, db')) :
    (answer.outcome = .existed ∧ db' = db) ∨
      (answer.outcome = .created ∧ Creates env queue key handle answer db db') := by
  obtain ⟨k, id, a, rfl, found, rfl, ⟨-, -, rfl, rfl⟩ | ⟨reserved, unexpired, args, jobId, entered, linked, -,
    enters, links, rfl, rfl⟩⟩ := finishAdmission_cases run
  · exact .inl ⟨rfl, rfl⟩
  · refine .inr ⟨rfl, k, id, a, jobId, rfl, found, rfl, reserved, unexpired, rfl, ?_⟩
    obtain ⟨-, -, fresh, ⟨job, q, m, here, -⟩, others⟩ := (enqueue_enqueued enters).created_row
    have link : Path env {.change jobId (.link id)} entered linked := updateJob_admits links rfl
    refine ⟨fresh, ?_, fun other apart => ?_⟩
    · simp only [updateJob, here] at links
      obtain ⟨written, counts, counters, flows, events, row, -, -, rfl⟩ := writeJob_frame links
      exact ⟨written, Table.get?_put_self _ _ _, congrArg JobRow.admissionId row⟩
    · have quiet : linked.jobs.get? other = entered.jobs.get? other := link.steps.row_eq (by simp [apart])
      exact quiet.trans (others other apart)

/-- The arguments of a finish that went through. -/
theorem finishAdmission_checked {result : FinishResult × Db}
    (run : finishAdmission env queue key handle job receipt db = .ok result) :
    ∃ k h, checkAdmissionKey queue key db = .ok k ∧ checkHandle handle = .ok h ∧
      (receipt.getD .null).kind = .object ∧ octetLength (receipt.getD .null).text ≤ 2048 := by
  simp only [finishAdmission, seq_eq_ok, ensure_eq_ok] at run
  obtain ⟨-, -, k, keyed, h, handled, args, -, -, sized, -⟩ := run
  exact ⟨k, h, keyed, handled, sized⟩

/-- After a finish the row records what it answered. -/
theorem finishAdmission_records {answer : FinishResult}
    (run : finishAdmission env queue key handle job receipt db = .ok (answer, db')) :
    ∃ k id a, key = some k ∧ db'.admissions.get? id = some a ∧ a.slot = (queue, k) ∧ handle = some a.handle ∧
      a.state = .admitted ∧ a.finishHash = some (finishHashOf env job receipt) ∧
      answer.jobId = a.jobId ∧ answer.receipt = a.receipt ∧ answer.receiptExpiresAt = a.receiptExpiresAt := by
  obtain ⟨k, id, a, rfl, found, rfl, ⟨admitted, hash, rfl, rfl⟩ | ⟨reserved, unexpired, args, jobId, entered, linked, -,
    enters, links, rfl, rfl⟩⟩ := finishAdmission_cases run
  · obtain ⟨stored, rfl, rfl⟩ := admissionByKey_eq_some found
    exact ⟨_, id, a, rfl, stored, rfl, rfl, admitted, hash, rfl, rfl, rfl⟩
  · obtain ⟨stored, rfl, rfl⟩ := admissionByKey_eq_some found
    exact ⟨_, id, _, rfl, Table.get?_put_self _ _ _, rfl, rfl, rfl, rfl, rfl, rfl, rfl⟩

/-- A finish of a row that records the same content answers from the row, once the session may act on the
queue and the job can be read. -/
theorem finishAdmission_replay (keyed : checkAdmissionKey queue key db = .ok k)
    (handled : checkHandle handle = .ok a.handle)
    (sized : (receipt.getD .null).kind = .object ∧ octetLength (receipt.getD .null).text ≤ 2048)
    (found : admissionByKey db queue k = some (id, a)) (admitted : a.state = .admitted)
    (hash : a.finishHash = some (finishHashOf env job receipt)) :
    finishAdmission env queue key handle job receipt db = (do
      checkAdmissionOwner env queue db
      let _ ← parseAdmissionJob env queue (job.getD .null)
      .ok (⟨.existed, a.jobId, a.receipt, a.receiptExpiresAt⟩, db)) := by
  have same : a.finishHash = some (env.sha256 (Jsonb.text (.build [("job", job.getD .null),
    ("receipt", receipt.getD .null)]))) := hash
  simp only [finishAdmission, keyed, handled, ensure, sized]
  simp [bind, Except.bind, found, admitted, same]

end Finish

section Reserve

/-- The arguments of a reservation that went through. -/
theorem reserveAdmission_checked {reservationTtl receiptTtl : Option ℤ} {result : ReserveResult × Db}
    (run : reserveAdmission env queue key intent handle reservationTtl receiptTtl db = .ok result) :
    ∃ k h, checkAdmissionKey queue key db = .ok k ∧ checkHandle handle = .ok h ∧ intent.any isSha256 ∧
      (reservationTtl.any fun n => 15 ≤ n ∧ n ≤ 3600) ∧ receiptTtl.any fun n => 3600 ≤ n ∧ n ≤ 31536000 := by
  simp only [reserveAdmission, seq_eq_ok, ensure_eq_ok] at run
  obtain ⟨-, -, k, keyed, -, hashed, h, handled, -, ttl, -, kept, -⟩ := run
  exact ⟨k, h, keyed, handled, hashed, ttl, kept⟩

/-- A reservation with the intent of an admitted row that stands is answered from the row. -/
theorem reserveAdmission_replay {h : Uuid} {reservationTtl receiptTtl : Option ℤ}
    (keyed : checkAdmissionKey queue key db = .ok k) (handled : checkHandle handle = .ok h)
    (hashed : a.intentHash |> isSha256) (ttl : reservationTtl.any fun n => 15 ≤ n ∧ n ≤ 3600)
    (kept : receiptTtl.any fun n => 3600 ≤ n ∧ n ≤ 31536000)
    (found : admissionByKey db queue k = some (id, a)) (admitted : a.state = .admitted)
    (stands : a.Stands env.now db.toCore id) :
    reserveAdmission env queue key (some a.intentHash) handle reservationTtl receiptTtl db = (do
      checkAdmissionOwner env queue db
      .ok (.admitted a.jobId a.receipt a.receiptExpiresAt, db)) := by
  have standing : standingReservation env id a a.intentHash h db.toCore =
      .ok (some (.admitted a.jobId a.receipt a.receiptExpiresAt)) := by
    simp only [Admission.Stands, admitted] at stands
    have valid : ¬(a.receiptExpiresAt.any (· ≤ env.now) = true ∧
        db.jobs.count (fun _ j => j.admissionId = some id) = 0) := by
      rintro ⟨expired, free⟩
      obtain valid | ⟨jobId, job, here, carries⟩ := stands
      · cases valid.symm.trans expired
      · exact count_carriers.mp free jobId job here carries
    simp only [standingReservation, admitted, if_neg valid]
    simp [ensure, bind, Except.bind]
  have hash : (some a.intentHash).any isSha256 = true := hashed
  simp only [reserveAdmission, keyed, handled, ensure, hash, ttl, kept, Option.getD_some]
  simp [found, standing, bind, Except.bind]

/-- No reservation with another intent goes through while the row stands. -/
theorem reserveAdmission_refused {reservationTtl receiptTtl : Option ℤ} {result : ReserveResult × Db}
    (found : admissionByKey db queue k = some (id, a)) (stands : a.Stands env.now db.toCore id)
    (run : reserveAdmission env queue (some k) intent handle reservationTtl receiptTtl db = .ok result) :
    intent = some a.intentHash := by
  obtain ⟨answer, db'⟩ := result
  obtain ⟨_, hash, h, ttl, kept, same, rfl, rfl, -, -, ⟨free, -⟩ | ⟨id', a', standing, there, answered, -⟩⟩ :=
    reserveAdmission_cases run
  · cases same
    cases free.symm.trans found
  · cases same
    cases there.symm.trans found
    cases standing with
    | none => exact absurd stands (standingReservation_eq_none answered)
    | some answer => exact congrArg some (standingReservation_intent answered).symm

end Reserve

section Run

variable {site : Site} {s t u : System}

/-- While the row under the key names the job of a finish, it is the row that the finish left. -/
theorem System.Run.still_recorded {answer : FinishResult} (run : System.Run site anyCall u t) (tied : Tied s.db)
    (finished : finishAdmission env queue (some k) handle job receipt s.db = .ok (answer, u.db))
    (found : admissionByKey t.db queue k = some (id, a)) (named : a.jobId = answer.jobId) :
    handle = some a.handle ∧ a.state = .admitted ∧ a.finishHash = some (finishHashOf env job receipt) ∧
      answer.receipt = a.receipt ∧ answer.receiptExpiresAt = a.receiptExpiresAt := by
  have after : Tied u.db := (finishAdmission_booking finished).tied tied
  obtain ⟨_, id', a', same, stored, slot, ours, admitted, hash, jobId, receipts, expires⟩ :=
    finishAdmission_records finished
  cases same
  obtain ⟨here, rfl, rfl⟩ := admissionByKey_eq_some found
  obtain ⟨created, names⟩ := Option.isSome_iff_exists.mp (after.named id' a' stored admitted)
  have drawn := (after.recorded id' a' created stored names).2
  have earlier := run.recorded after here ((named.trans jobId).trans names) drawn
  cases after.slots id' id a' a stored earlier slot
  cases stored.symm.trans earlier
  exact ⟨ours, admitted, hash, receipts, expires⟩

/-- Two-phase admission. One job at most carries the admission of a key; a finish creates its job for the
handle of an unexpired reservation; while the row under the key names that job, the finish is answered again
with the same job and receipt, and so is a reservation with its intent as long as the receipt is unexpired or
the job is stored; another intent takes no row that stands; and a call that fails changes nothing. -/
theorem two_phase_admission (reachable : System.Reachable site anyCall s) :
    (∀ queue key, (carriers s.db queue key).Subsingleton) ∧
    (∀ env queue key handle job receipt answer db',
      finishAdmission env queue key handle job receipt s.db = .ok (answer, db') →
      (answer.outcome = .existed ∧ db' = s.db) ∨
        (answer.outcome = .created ∧ Creates env queue key handle answer s.db db')) ∧
    (∀ env queue k handle job receipt answer u t id a, env.toSite = site →
      finishAdmission env queue (some k) handle job receipt s.db = .ok (answer, u.db) →
      System.Run site anyCall u t → admissionByKey t.db queue k = some (id, a) → a.jobId = answer.jobId →
      (∀ later : Env, later.toSite = site →
        finishAdmission later queue (some k) handle job receipt t.db = (do
          checkAdmissionOwner later queue t.db
          let _ ← parseAdmissionJob later queue (job.getD .null)
          .ok (⟨.existed, answer.jobId, answer.receipt, answer.receiptExpiresAt⟩, t.db))) ∧
      ∀ later before intent handle reservationTtl receiptTtl db result,
        reserveAdmission before queue (some k) intent handle reservationTtl receiptTtl db = .ok result →
        intent = some a.intentHash → a.Stands later.now t.db.toCore id →
        reserveAdmission later queue (some k) intent handle reservationTtl receiptTtl t.db = (do
          checkAdmissionOwner later queue t.db
          .ok (.admitted answer.jobId answer.receipt answer.receiptExpiresAt, t.db))) ∧
    (∀ env queue k id a intent handle reservationTtl receiptTtl result,
      admissionByKey s.db queue k = some (id, a) → a.Stands env.now s.db.toCore id →
      reserveAdmission env queue (some k) intent handle reservationTtl receiptTtl s.db = .ok result →
      intent = some a.intentHash) ∧
    (∀ env command t, System.Step site env command s t → ∀ id a id' a', s.db.admissions.get? id = some a →
      a.Stands env.now s.db.toCore id → t.db.admissions.get? id' = some a' → a'.slot = a.slot →
      a'.intentHash = a.intentHash) ∧
    ∀ env command e, Command.exec env command s.db = .error e → guarded (Command.exec env command) s.db = s.db := by
  have tied := reachable.tied
  refine ⟨tied.carriers_subsingleton, fun _ _ _ _ _ _ _ _ => finishAdmission_creates, ?_,
    fun _ _ _ _ _ _ _ _ _ _ => reserveAdmission_refused, fun env command t next id a id' a' stored stands here same =>
      (Command.exec_booking next.exec).intent tied stored stands here same, fun _ _ _ => guarded_of_error⟩
  intro env queue k handle job receipt answer u t id a home finished run found named
  obtain ⟨rfl, admitted, hash, receipts, expires⟩ := run.still_recorded tied finished found named
  obtain ⟨_, h, keyed, handled, sized⟩ := finishAdmission_checked finished
  obtain ⟨known, same, valid⟩ := checkAdmissionKey_eq_ok.mp keyed
  cases same
  obtain ⟨same, nonzero⟩ := checkHandle_eq_ok.mp handled
  cases same
  have queues : u.db.queues = s.db.queues := (finishAdmission_registers finished).used.2.2.2
  have there : (t.db.queues.get? queue).isSome := run.queue_stays (queues ▸ known)
  have keyed : checkAdmissionKey queue (some k) t.db = .ok k := checkAdmissionKey_eq_ok.mpr ⟨there, rfl, valid⟩
  refine ⟨fun later server => ?_, fun later before intent handle' _ _ db result reserved same stands => ?_⟩
  · have content : a.finishHash = some (finishHashOf later job receipt) := by
      rw [hash, finishHashOf, finishHashOf, home, server]
    rw [← named, receipts, expires]
    exact finishAdmission_replay keyed handled sized found admitted content
  · subst same
    obtain ⟨_, h, -, handled, hashed, ttl, kept⟩ := reserveAdmission_checked reserved
    rw [← named, receipts, expires]
    exact reserveAdmission_replay keyed handled hashed ttl kept found admitted stands

/-- The SHA-256 text that the runs below give as their intent. -/
def digest : String := String.ofList (List.replicate 64 'a')

/-- The job of the runs below. -/
def smallJob : Jsonb := .obj [("job_type", .str "t"), ("payload", .obj [])]

/-- The calls that reserve the key "k" and finish it with a receipt that is kept for thirty days. -/
def reserved : List (Time × Command) :=
  [(0, .ensureQueue (some "q") none),
    (0, .reserveAdmission "q" (some "k") (some digest) (some 7) (some 300) (some 2592000))]

/-- The finish of that reservation. -/
def firstFinish (now : Time) (db : Db) : Call (FinishResult × Db) :=
  finishAdmission (.alone .plain now 9) "q" (some "k") (some 7) (some smallJob) (some (.obj [])) db

/-- The finish, and calls after it. -/
theorem firstFinish_plays {rest : List (Time × Command)} {p : FinishResult → System → Bool}
    (plays : System.plays .plain reserved (.installed .plain 0) (fun s =>
      (firstFinish 1 s.db).toOption.any fun r => System.plays .plain rest ⟨r.2, 1, 9, []⟩ (p r.1)) = true) :
    ∃ (s u t : System) (answer : FinishResult), System.Reachable .plain anyCall s ∧
      firstFinish 1 s.db = .ok (answer, u.db) ∧ System.Run .plain anyCall u t ∧ p answer t = true := by
  obtain ⟨s, run, there⟩ := System.plays_run anyCall plays fun _ _ _ => trivial
  obtain ⟨⟨answer, db⟩, finished, there⟩ := (Option.any_eq_true _ _).mp there
  obtain ⟨t, onward, here⟩ := System.plays_run anyCall there fun _ _ _ => trivial
  exact ⟨s, ⟨db, 1, 9, []⟩, t, answer, ⟨0, run⟩, toOption_eq_some.mp finished, onward, here⟩

/-- A finished reservation is finished again after its job was cancelled, and answers the same. -/
theorem two_phase_admission_again : ∃ (s u t : System) (answer : FinishResult),
    firstFinish 1 s.db = .ok (answer, u.db) ∧ System.Run .plain anyCall u t ∧
    firstFinish 3 t.db = .ok (⟨.existed, answer.jobId, answer.receipt, answer.receiptExpiresAt⟩, t.db) := by
  have played : System.plays .plain reserved (.installed .plain 0) (fun s =>
      (firstFinish 1 s.db).toOption.any fun r =>
        System.plays .plain [(2, .cancelJob 3 (some "op") none)] ⟨r.2, 1, 9, []⟩ (fun t =>
          ((admissionByKey t.db "q" "k").any fun row => row.2.jobId = r.1.jobId) &&
            checkAdmissionOwner (.alone .plain 3 9) "q" t.db = .ok ())) = true := by decide +kernel
  have parses : ∃ args, parseAdmissionJob (.alone .plain 3 9) "q" smallJob = .ok args := ⟨_, rfl⟩
  obtain ⟨args, parsed⟩ := parses
  obtain ⟨s, u, t, answer, reachable, finished, run, there⟩ := firstFinish_plays (p := fun answer t =>
    ((admissionByKey t.db "q" "k").any fun row => row.2.jobId = answer.jobId) &&
      checkAdmissionOwner (.alone .plain 3 9) "q" t.db = .ok ()) played
  simp only [Bool.and_eq_true, decide_eq_true_eq] at there
  obtain ⟨row, allowed⟩ := there
  obtain ⟨⟨id, a⟩, found, named⟩ := (Option.any_eq_true _ _).mp row
  have again := ((two_phase_admission reachable).2.2.1 _ "q" "k" _ _ _ answer u t id a rfl finished run found
    (of_decide_eq_true named)).1 (.alone .plain 3 9) rfl
  refine ⟨s, u, t, answer, finished, run, again.trans ?_⟩
  rw [allowed, Option.getD_some, parsed]
  rfl

/-- The handle of a fresh reservation. -/
def ReserveResult.fresh : ReserveResult → Option Uuid
  | .reserved handle _ => some handle
  | _ => none

/-- After the receipt expired and the job is gone, the row still names the job, but a reservation with the
same handle, key and intent starts anew. -/
theorem two_phase_admission_reacquired : ∃ (s u t : System) (answer : FinishResult),
    System.Reachable .plain anyCall s ∧ firstFinish 1 s.db = .ok (answer, u.db) ∧
    System.Run .plain anyCall u t ∧ (∃ id a, admissionByKey t.db "q" "k" = some (id, a) ∧
      a.state = .admitted ∧ a.jobId = answer.jobId ∧ a.handle = 7 ∧ a.intentHash = digest) ∧
    ∃ expires db, reserveAdmission (.alone .plain (31 * 86400000000) 9) "q" (some "k") (some digest) (some 7)
      (some 300) (some 2592000) t.db = .ok (.reserved 7 expires, db) := by
  have played : System.plays .plain reserved (.installed .plain 0) (fun s =>
      (firstFinish 1 s.db).toOption.any fun r =>
        System.plays .plain [(2, .cancelJob 3 (some "op") none), (20 * 86400000000, .janitor)]
          ⟨r.2, 1, 9, []⟩ (fun t =>
            ((admissionByKey t.db "q" "k").any fun row => row.2.state = .admitted ∧ row.2.jobId = r.1.jobId ∧
              row.2.handle = 7 ∧ row.2.intentHash = digest) &&
            (reserveAdmission (.alone .plain (31 * 86400000000) 9) "q" (some "k") (some digest) (some 7)
              (some 300) (some 2592000) t.db).toOption.any (·.1.fresh = some 7))) = true := by decide +kernel
  obtain ⟨s, u, t, answer, reachable, finished, run, there⟩ := firstFinish_plays (p := fun answer t =>
    ((admissionByKey t.db "q" "k").any fun row => row.2.state = .admitted ∧ row.2.jobId = answer.jobId ∧
      row.2.handle = 7 ∧ row.2.intentHash = digest) &&
    (reserveAdmission (.alone .plain (31 * 86400000000) 9) "q" (some "k") (some digest) (some 7)
      (some 300) (some 2592000) t.db).toOption.any (·.1.fresh = some 7)) played
  simp only [Bool.and_eq_true] at there
  obtain ⟨row, anew⟩ := there
  obtain ⟨⟨id, a⟩, found, recorded⟩ := (Option.any_eq_true _ _).mp row
  refine ⟨s, u, t, answer, reachable, finished, run, ⟨id, a, found, of_decide_eq_true recorded⟩, ?_⟩
  obtain ⟨⟨reservation, db⟩, answered, anew⟩ := (Option.any_eq_true _ _).mp anew
  have anew : reservation.fresh = some 7 := of_decide_eq_true anew
  cases reservation with
  | reserved handle expires =>
    cases anew
    exact ⟨expires, db, toOption_eq_some.mp answered⟩
  | pending expires retry => cases anew
  | admitted job receipt expires => cases anew

end Run

end Taskq
