import Taskq.Invariants.Footprints

/-! The two-phase protocol over the admissions and the jobs: what one call may do, and that every
admission is tied to at most one job. -/
namespace Taskq
open Relational

variable {env : Env} {db db' : Db} {id : Uuid} {a : Admission} {queue key : String}

section Bookings

theorem admissionByKey_eq_some (found : admissionByKey db queue key = some (id, a)) :
    db.admissions.get? id = some a ∧ a.queue = queue ∧ a.idempotencyKey = key := by
  have member := Table.mem_select.mp (List.mem_of_mem_head? found)
  simpa using member

theorem admissionByKey_eq_none : admissionByKey db queue key = none ↔
    ∀ id a, db.admissions.get? id = some a → ¬(a.queue = queue ∧ a.idempotencyKey = key) := by
  simp only [admissionByKey, List.head?_eq_none_iff, List.eq_nil_iff_forall_not_mem, Prod.forall,
    Table.mem_select]
  simp

/-- The queue and the key of an admission. -/
def Admission.slot (a : Admission) : String × String := (a.queue, a.idempotencyKey)

/-- One call on the admissions. -/
inductive Booking (env : Env) (db : Db) : Db → Prop
  | idle {db' : Db} (prunes : Prunes env db db') : Booking env db db'
  | first (queue key intent : String) (handle : Uuid) (ttl kept : ℤ)
      (free : ∀ id a, db.admissions.get? id = some a → a.slot ≠ (queue, key)) :
      Booking env db ({ db with nextUuid := db.nextUuid + 1 }.putAdmission db.nextUuid
        (reservationRow env queue key intent handle ttl kept env.now))
  | again {id : Uuid} {a : Admission} (queue key intent : String) (handle : Uuid) (ttl kept : ℤ)
      (stored : db.admissions.get? id = some a) (slot : a.slot = (queue, key))
      (fallen : ¬a.Stands env.now db.toCore id) :
      Booking env db (db.putAdmission id (reservationRow env queue key intent handle ttl kept a.createdAt))
  | cancel {id : Uuid} {a : Admission} (stored : db.admissions.get? id = some a) (reserved : a.state = .reserved) :
      Booking env db (db.putAdmission id { a with state := .cancelled, updatedAt := env.now })
  | finish {id jobId : Uuid} {a : Admission} {linked : Db} (hash : String) (receipt : Jsonb)
      (stored : db.admissions.get? id = some a) (reserved : a.state = .reserved)
      (steps : Steps (insert (.change jobId (.link id)) unlinked) db.toCore linked.toCore)
      (kept : linked.admissions = db.admissions) (new : db.nextUuid ≤ jobId) (drawn : jobId < linked.nextUuid) :
      Booking env db (linked.putAdmission id (receiptRow env a hash jobId receipt))

theorem reserveAdmission_booking {key intent : Option String} {handle : Option Uuid}
    {reservationTtl receiptTtl : Option ℤ} {answer : ReserveResult}
    (run : reserveAdmission env queue key intent handle reservationTtl receiptTtl db = .ok (answer, db')) :
    Booking env db db' := by
  obtain ⟨k, hash, h, ttl, kept, -, -, -, -, -, ⟨free, -, rfl⟩ | ⟨id, a, standing, found, stands, answered⟩⟩ :=
    reserveAdmission_cases run
  · exact .first _ _ _ _ _ _ fun id a stored same => admissionByKey_eq_none.mp free id a stored (by simpa [Admission.slot] using same)
  · obtain ⟨stored, rfl, rfl⟩ := admissionByKey_eq_some found
    obtain ⟨-, rfl⟩ | ⟨rfl, -, rfl⟩ := answered
    · exact .idle (.refl _)
    · exact .again _ _ _ _ _ _ stored rfl (standingReservation_eq_none stands)

theorem finishAdmission_booking {key : Option String} {handle : Option Uuid} {job receipt : Option Jsonb}
    {answer : FinishResult} (run : finishAdmission env queue key handle job receipt db = .ok (answer, db')) :
    Booking env db db' := by
  obtain ⟨k, id, a, -, found, -, ⟨-, -, -, rfl⟩ | ⟨reserved, -, args, jobId, entered, linked, -, enters, links, -, rfl⟩⟩ :=
    finishAdmission_cases run
  · exact .idle (.refl _)
  · obtain ⟨new, drawn, -⟩ := (enqueue_enqueued enters).created_row
    have enter := enqueue_path enters
    have link : Path env {.change jobId (.link id)} entered linked := updateJob_admits links rfl
    refine .finish _ _ (admissionByKey_eq_some found).1 reserved ?_ ?_ new ?_
    · exact (enter.steps.mono fun l member => .inr (admissions_unlinked member)).trans
        (link.steps.mono fun l member => .inl member)
    · exact (congrArg (·.2.2.2.2) link.settings).trans (congrArg (·.2.2.2.2) enter.settings)
    · exact drawn.trans_le link.steps.nextUuid_le

theorem cancelAdmission_booking {key : Option String} {handle : Option Uuid} {answer : CancelAdmissionResult}
    (run : cancelAdmission env queue key handle db = .ok (answer, db')) : Booking env db db' := by
  obtain ⟨k, id, a, -, found, -, rfl | ⟨reserved, rfl⟩⟩ := cancelAdmission_cases run
  · exact .idle (.refl _)
  · exact .cancel (admissionByKey_eq_some found).1 reserved

/-- Every call makes a step of the protocol, and only a reservation takes a row. -/
theorem Command.exec_booking {command : Command} (run : command.exec env db = .ok db') : Booking env db db' := by
  obtain ⟨⟨F, used, steps⟩, -, kept⟩ := Command.exec_effect run
  have idle (other : ¬command.finishes) (same : db'.admissions = db.admissions) : Booking env db db' :=
    .idle (.jobs (steps.mono (Command.footprints_unlinked used other)) same)
  cases command with
  | reserveAdmission => exact (map_snd_eq_ok.mp run).elim fun _ run => reserveAdmission_booking run
  | finishAdmission => exact (map_snd_eq_ok.mp run).elim fun _ run => finishAdmission_booking run
  | cancelAdmission => exact (map_snd_eq_ok.mp run).elim fun _ run => cancelAdmission_booking run
  | janitor =>
    obtain ⟨report, run⟩ := map_snd_eq_ok.mp run
    obtain ⟨mid, -, prunes, rfl⟩ := janitor_cases run
    exact .idle (prunes.trans (.of_eq rfl rfl))
  | fireSchedule => exact (map_snd_eq_ok.mp run).elim fun _ run => .idle (fireSchedule_keeps run).2
  | ensureQueue | pauseQueue | resumeQueue | setConcurrencyLimit | setFlowLimit | setBreakerConfig | setBreakerRate
  | setBreakerLatency | tripBreaker | forceCloseBreaker | setPriorityAging => exact idle not_false kept.2
  | bindQueueAdmissionOwner | adoptQueueAdmissionOwner | rotateQueueAdmissionOwner => exact idle not_false kept.1
  | putSchedule | putManagedSchedule | setScheduleState | retireSchedule | setScheduleSmear | claimSchedules
  | scheduleError => exact idle not_false kept.2.1
  | _ => exact idle not_false kept.2.2

end Bookings

section Tied

/-- Every key has one row, a row names a job when it is admitted, and a job that carries an admission is
the one that its row names. -/
structure Tied (db : Db) : Prop where
  slots : ∀ id id' a a', db.admissions.get? id = some a → db.admissions.get? id' = some a' →
    a.slot = a'.slot → id = id'
  minted : ∀ id a, db.admissions.get? id = some a → id < db.nextUuid
  recorded : ∀ id a jobId, db.admissions.get? id = some a → a.jobId = some jobId →
    a.state = .admitted ∧ jobId < db.nextUuid
  named : ∀ id a, db.admissions.get? id = some a → a.state = .admitted → a.jobId.isSome
  carried : ∀ jobId job id, db.jobs.get? jobId = some job → job.admissionId = some id →
    ∃ a, db.admissions.get? id = some a ∧ a.jobId = some jobId

/-- A row that is reserved is carried by no job. -/
theorem Tied.uncarried (tied : Tied db) (stored : db.admissions.get? id = some a) (open' : a.state ≠ .admitted)
    {jobId : Uuid} {job : Job} (here : db.jobs.get? jobId = some job) : job.admissionId ≠ some id := by
  intro carries
  obtain ⟨b, there, names⟩ := tied.carried jobId job id here carries
  cases stored.symm.trans there
  exact open' (tied.recorded id a jobId stored names).1

/-- A row that stands no more is carried by no job. -/
theorem Tied.given_up (tied : Tied db) (stored : db.admissions.get? id = some a) {now : Time}
    (fallen : ¬a.Stands now db.toCore id) {jobId : Uuid} {job : Job} (here : db.jobs.get? jobId = some job) :
    job.admissionId ≠ some id := by
  intro carries
  obtain ⟨b, there, names⟩ := tied.carried jobId job id here carries
  cases stored.symm.trans there
  have admitted := (tied.recorded id a jobId stored names).1
  simp only [Admission.Stands, admitted] at fallen
  exact fallen (.inr ⟨jobId, job, here, carries⟩)

/-- A row takes the place of one under the same key that no job carries, or a new place. -/
theorem Tied.put (tied : Tied db) {row : Admission} (drawn : id < db.nextUuid)
    (own : ∀ other b, db.admissions.get? other = some b → b.slot = row.slot → other = id)
    (unnamed : row.jobId = none) (open' : row.state ≠ .admitted)
    (free : ∀ jobId job, db.jobs.get? jobId = some job → job.admissionId ≠ some id) :
    Tied (db.putAdmission id row) := by
  refine ⟨fun x y b c hb hc same => ?_, fun x b hb => ?_, fun x b jobId hb named => ?_,
    fun x b hb admitted => ?_, fun jobId job x here carries => ?_⟩
  · simp only [Db.putAdmission, Table.get?_put] at hb hc
    split_ifs at hb hc with hx hy hy
    · exact hx.trans hy.symm
    · cases hb
      exact hx.trans (own y c hc same.symm).symm
    · cases hc
      exact (own x b hb same).trans hy.symm
    · exact tied.slots x y b c hb hc same
  · simp only [Db.putAdmission, Table.get?_put] at hb
    split_ifs at hb with hx
    · exact hx ▸ drawn
    · exact tied.minted x b hb
  · simp only [Db.putAdmission, Table.get?_put] at hb
    split_ifs at hb with hx
    · cases hb
      cases unnamed.symm.trans named
    · exact tied.recorded x b jobId hb named
  · simp only [Db.putAdmission, Table.get?_put] at hb
    split_ifs at hb with hx
    · cases hb
      exact absurd admitted open'
    · exact tied.named x b hb admitted
  · obtain ⟨b, stored, names⟩ := tied.carried jobId job x here carries
    have apart : x ≠ id := fun same => free jobId job here (same ▸ carries)
    exact ⟨b, (Table.get?_put_of_ne _ _ apart).trans stored, names⟩

theorem Tied.prunes (tied : Tied db) (prunes : Prunes env db db') : Tied db' := by
  refine ⟨fun x y b c hb hc => tied.slots x y b c (prunes.fewer hb) (prunes.fewer hc),
    fun x b hb => (tied.minted x b (prunes.fewer hb)).trans_le prunes.nextUuid_le,
    fun x b jobId hb named => ?_, fun x b hb => tied.named x b (prunes.fewer hb),
    fun jobId job x here carries => ?_⟩
  · obtain ⟨admitted, drawn⟩ := tied.recorded x b jobId (prunes.fewer hb) named
    exact ⟨admitted, drawn.trans_le prunes.nextUuid_le⟩
  · obtain ⟨⟨before, there, carried⟩, kept⟩ := prunes.carried here carries
    obtain ⟨b, stored, names⟩ := tied.carried jobId before x there carried
    exact ⟨b, kept.trans stored, names⟩

/-- Every call keeps admissions and jobs tied. -/
theorem Booking.tied (booking : Booking env db db') (tied : Tied db) : Tied db' := by
  cases booking with
  | idle prunes => exact tied.prunes prunes
  | first queue key intent handle ttl kept free =>
    have minted : Tied { db with nextUuid := db.nextUuid + 1 } := tied.prunes (.mint env db)
    refine minted.put (Nat.lt_succ_self _) (fun other b stored same => absurd same (free other b stored)) rfl nofun ?_
    intro jobId job here carries
    obtain ⟨b, stored, -⟩ := tied.carried jobId job db.nextUuid here carries
    exact (tied.minted _ b stored).ne rfl
  | @again id a queue key intent handle ttl kept stored slot fallen =>
    refine tied.put (tied.minted id a stored) (fun other b there same => ?_) rfl nofun fun jobId job => ?_
    · exact tied.slots other id b a there stored (same.trans slot.symm)
    · exact tied.given_up stored fallen
  | @cancel id a stored reserved =>
    have open' : a.state ≠ .admitted := by simp [reserved]
    refine tied.put (tied.minted id a stored) (fun other b there same => ?_) ?_ nofun fun jobId job => ?_
    · exact tied.slots other id b a there stored same
    · rw [Option.eq_none_iff_forall_ne_some]
      intro jobId named
      exact open' (tied.recorded id a jobId stored named).1
    · exact tied.uncarried stored open'
  | @finish id jobId a linked hash receipt stored reserved steps kept new drawn =>
    have later := steps.nextUuid_le
    refine ⟨fun x y b c hb hc same => ?_, fun x b hb => ?_, fun x b named hb names => ?_,
      fun x b hb admitted => ?_, fun j job x here carries => ?_⟩
    · simp only [Db.putAdmission, kept, Table.get?_put] at hb hc
      split_ifs at hb hc with hx hy hy
      · exact hx.trans hy.symm
      · cases hb
        exact hx.trans (tied.slots id y a c stored hc same)
      · cases hc
        exact (tied.slots x id b a hb stored same).trans hy.symm
      · exact tied.slots x y b c hb hc same
    · simp only [Db.putAdmission, kept, Table.get?_put] at hb
      split_ifs at hb with hx
      · exact hx ▸ (tied.minted id a stored).trans_le later
      · exact (tied.minted x b hb).trans_le later
    · simp only [Db.putAdmission, kept, Table.get?_put] at hb
      split_ifs at hb with hx
      · cases hb
        cases names
        exact ⟨rfl, drawn⟩
      · obtain ⟨admitted, before⟩ := tied.recorded x b named hb names
        exact ⟨admitted, before.trans_le later⟩
    · simp only [Db.putAdmission, kept, Table.get?_put] at hb
      split_ifs at hb with hx
      · cases hb
        rfl
      · exact tied.named x b hb admitted
    · by_cases own : j = jobId ∧ x = id
      · obtain ⟨rfl, rfl⟩ := own
        exact ⟨_, Table.get?_put_self _ _ _, rfl⟩
      · have quiet : Label.change j (.link x) ∉ insert (Label.change jobId (.link id)) unlinked := by
          rintro (same | member)
          · cases same
            exact own ⟨rfl, rfl⟩
          · exact member _ _ rfl
        obtain ⟨before, there, carried⟩ := steps.carried quiet here carries
        obtain ⟨b, found, names⟩ := tied.carried j before x there carried
        have apart : x ≠ id := by
          rintro rfl
          exact tied.uncarried stored (by simp [reserved]) there carried
        refine ⟨b, ?_, names⟩
        simp only [Db.putAdmission, kept]
        exact (Table.get?_put_of_ne _ _ apart).trans found

/-- A row that names a job of earlier is the row of earlier. -/
theorem Booking.recorded (booking : Booking env db db') {jobId : Uuid} (stored : db'.admissions.get? id = some a)
    (named : a.jobId = some jobId) (earlier : jobId < db.nextUuid) (tied : Tied db) :
    db.admissions.get? id = some a := by
  cases booking with
  | idle prunes => exact prunes.fewer stored
  | first | again =>
    simp only [Db.putAdmission, Table.get?_put] at stored
    split_ifs at stored
    · cases stored
      cases named
    · exact stored
  | @cancel x b there reserved =>
    simp only [Db.putAdmission, Table.get?_put] at stored
    split_ifs at stored
    · cases stored
      cases reserved.symm.trans (tied.recorded x b jobId there named).1
    · exact stored
  | @finish x jobId' b linked hash receipt there reserved steps kept new drawn =>
    simp only [Db.putAdmission, kept, Table.get?_put] at stored
    split_ifs at stored
    · cases stored
      cases named
      exact absurd earlier (not_lt.mpr new)
    · exact stored

/-- While a row stands, its key keeps the intent. -/
theorem Booking.intent (booking : Booking env db db') (tied : Tied db) {id' : Uuid} {a' : Admission}
    (stored : db.admissions.get? id = some a) (stands : a.Stands env.now db.toCore id)
    (here : db'.admissions.get? id' = some a') (same : a'.slot = a.slot) : a'.intentHash = a.intentHash := by
  have unchanged {x : Uuid} {b : Admission} (there : db.admissions.get? x = some b) (same : b.slot = a.slot) :
      b.intentHash = a.intentHash := by
    cases tied.slots x id b a there stored same
    cases stored.symm.trans there
    rfl
  cases booking with
  | idle prunes => exact unchanged (prunes.fewer here) same
  | first queue key intent handle ttl kept free =>
    simp only [Db.putAdmission, Table.get?_put] at here
    split_ifs at here
    · cases here
      exact absurd same.symm (free id a stored)
    · exact unchanged here same
  | @again x b queue key intent handle ttl kept there slot fallen =>
    simp only [Db.putAdmission, Table.get?_put] at here
    split_ifs at here
    · cases here
      cases tied.slots x id b a there stored (slot.trans same)
      cases stored.symm.trans there
      exact absurd stands fallen
    · exact unchanged here same
  | @cancel x b there reserved =>
    simp only [Db.putAdmission, Table.get?_put] at here
    split_ifs at here
    · cases here
      have before : b.intentHash = a.intentHash := unchanged there same
      exact before
    · exact unchanged here same
  | @finish x jobId' b linked hash receipt there reserved steps kept new drawn =>
    simp only [Db.putAdmission, kept, Table.get?_put] at here
    split_ifs at here
    · cases here
      have before : b.intentHash = a.intentHash := unchanged there same
      exact before
    · exact unchanged here same

theorem System.Run.tied {site : Site} {allowed : System → Env → Command → Prop} {s t : System}
    (run : System.Run site allowed s t) (tied : Tied s.db) : Tied t.db :=
  run.induction (I := fun t => Tied t.db) tied fun ih _ next => (Command.exec_booking next.exec).tied ih

theorem System.Reachable.tied {site : Site} {allowed : System → Env → Command → Prop} {s : System}
    (reachable : System.Reachable site allowed s) : Tied s.db := by
  obtain ⟨now, run⟩ := reachable
  refine run.tied ⟨fun _ _ _ _ none => ?_, fun _ _ none => ?_, fun _ _ _ none => ?_, fun _ _ none => ?_,
    fun _ _ _ none => ?_⟩
  · cases none
  · cases none
  · cases none
  · cases none
  · cases none

/-- A row that names a job of the start of a run was there at the start. -/
theorem System.Run.recorded {site : Site} {allowed : System → Env → Command → Prop} {s t : System}
    (run : System.Run site allowed s t) (tied : Tied s.db) {jobId : Uuid}
    (stored : t.db.admissions.get? id = some a) (named : a.jobId = some jobId)
    (earlier : jobId < s.db.nextUuid) : s.db.admissions.get? id = some a := by
  have kept : Tied t.db ∧ s.db.nextUuid ≤ t.db.nextUuid ∧ ∀ a, t.db.admissions.get? id = some a →
      a.jobId = some jobId → s.db.admissions.get? id = some a := by
    refine run.induction (I := fun t => Tied t.db ∧ s.db.nextUuid ≤ t.db.nextUuid ∧ ∀ a,
      t.db.admissions.get? id = some a → a.jobId = some jobId → s.db.admissions.get? id = some a)
      ⟨tied, le_rfl, fun _ here _ => here⟩ ?_
    rintro t u env command ⟨tied, later, before⟩ - next
    have booking := Command.exec_booking next.exec
    obtain ⟨F, -, steps⟩ := next.steps
    refine ⟨booking.tied tied, later.trans steps.nextUuid_le, fun a here named => ?_⟩
    exact before a (booking.recorded here named (earlier.trans_le later) tied) named
  exact kept.2.2 a stored named

end Tied

end Taskq
