import Taskq.Lifecycle.Writes

/-! The admissions of two-phase producers: when a row still stands for its key, and how cleanup drops
rows that stand no more. -/
namespace Taskq
open Relational

variable {env : Env} {db db₁ db₂ : Db} {id : Uuid} {a : Admission}

/-- The row is an unexpired reservation, or an admission whose receipt is unexpired or whose job is
still stored. -/
def Admission.Stands (now : Time) (core : Core) (id : Uuid) (a : Admission) : Prop :=
  match a.state with
  | .reserved => now < a.reservationExpiresAt
  | .admitted => a.receiptExpiresAt.any (· ≤ now) = false ∨
      ∃ jobId job, core.jobs.get? jobId = some job ∧ job.admissionId = some id
  | .cancelled => False

theorem count_carriers {core : Core} {id : Uuid} :
    core.jobs.count (fun _ j => j.admissionId = some id) = 0 ↔
      ∀ jobId job, core.jobs.get? jobId = some job → job.admissionId ≠ some id := by
  simp [Table.count_eq_zero]

/-- A row that stands answers its own intent and refuses any other; a row that does not is given up. -/
theorem standingReservation_eq_none {intent : String} {handle : Uuid}
    (run : standingReservation env id a intent handle db.toCore = .ok none) :
    ¬a.Stands env.now db.toCore id := by
  unfold standingReservation at run
  unfold Admission.Stands
  cases state : a.state with
  | admitted =>
    simp only [state] at run ⊢
    split at run
    · rename_i gone
      rintro (valid | ⟨jobId, job, stored, carries⟩)
      · exact absurd gone.1 (by simp [valid])
      · exact count_carriers.mp gone.2 jobId job stored carries
    · simp at run
  | reserved =>
    simp only [state] at run ⊢
    split at run
    · simp only [seq_eq_ok] at run
      obtain ⟨-, -, run⟩ := run
      split at run <;> simp at run
    · rename_i expired
      exact expired
  | cancelled => exact fun stands => stands

theorem standingReservation_intent {intent : String} {handle : Uuid} {answer : ReserveResult}
    (run : standingReservation env id a intent handle db.toCore = .ok (some answer)) : a.intentHash = intent := by
  unfold standingReservation at run
  cases state : a.state with
  | admitted =>
    simp only [state] at run
    split at run
    · cases run
    · simp only [seq_eq_ok, ensure_eq_ok] at run
      obtain ⟨-, same, -⟩ := run
      exact same
  | reserved =>
    simp only [state] at run
    split at run
    · simp only [seq_eq_ok, ensure_eq_ok] at run
      obtain ⟨-, same, -⟩ := run
      exact same
    · cases run
  | cancelled =>
    simp only [state] at run
    cases run

theorem admissionDue_fallen (due : (admissionDue env db.toCore id a).isSome) :
    ¬a.Stands env.now db.toCore id := by
  unfold admissionDue at due
  unfold Admission.Stands
  cases state : a.state with
  | admitted =>
    simp only [state] at due ⊢
    cases expires : a.receiptExpiresAt with
    | none => simp [expires] at due
    | some at' =>
      simp only [expires, Option.bind_some] at due
      split at due
      · rename_i gone
        rintro (valid | ⟨jobId, job, stored, carries⟩)
        · simp [gone.1.le] at valid
        · exact count_carriers.mp gone.2 jobId job stored carries
      · cases due
  | reserved =>
    simp only [state] at due ⊢
    split at due
    · rename_i late
      have : a.reservationExpiresAt < env.now := late.trans_le (sub_le_self _ (by decide))
      exact this.le.not_gt
    · cases due
  | cancelled => exact fun stands => stands

/-- Labels that link no job to an admission. -/
def unlinked : Set Label := {l | ∀ id admission, l ≠ .change id (.link admission)}

theorem Life.Step.admission {max : ℤ} {k : Change} {l l' : Life} (step : Life.Step max k l l') :
    l'.admission = l.admission ∨ ∃ admission, k = .link admission ∧ l'.admission = some admission := by
  cases step with
  | link _ admission => exact .inr ⟨admission, rfl, rfl⟩
  | _ => exact .inl rfl

/-- A job that carries an admission carried it before, unless a step links it. -/
theorem Steps.carried {c d : Core} {S : Set Label} {jobId : Uuid} {job : Job} (steps : Steps S c d)
    (quiet : .change jobId (.link id) ∉ S) (stored : d.jobs.get? jobId = some job)
    (carries : job.admissionId = some id) :
    ∃ job, c.jobs.get? jobId = some job ∧ job.admissionId = some id := by
  refine steps.row (R := fun r s => ∀ job, s = some job → job.admissionId = some id →
    ∃ job, r = some job ∧ job.admissionId = some id) jobId (fun _ job here carries => ⟨job, here, carries⟩)
    (fun first second job here carries => ?_) (fun {l r s} member move job here carries => ?_) job stored carries
  · obtain ⟨between, there, carried⟩ := second job here carries
    exact first between there carried
  · cases move with
    | same => exact ⟨job, here, carries⟩
    | @change k old _ label _ _ step =>
      cases here
      refine ⟨old, rfl, ?_⟩
      obtain same | ⟨admission, rfl, now⟩ := step.admission
      · exact same.symm.trans carries
      · cases now.symm.trans carries
        exact absurd (label ▸ member) quiet
    | delete => cases here
    | enter _ _ born =>
      cases here
      cases (congrArg Life.admission born).symm.trans carries

/-- What calls outside of the protocol do: jobs change, and cleanup drops rows that stand no more and
that no job refers to. -/
inductive Prunes (env : Env) : Db → Db → Prop
  | jobs {db db' : Db} (steps : Steps unlinked db.toCore db'.toCore)
      (kept : db'.admissions = db.admissions) : Prunes env db db'
  | drop {db db' : Db} (ids : List Uuid) (core : db'.toCore = db.toCore)
      (fallen : ∀ id a, id ∈ ids → db.admissions.get? id = some a → ¬a.Stands env.now db.toCore id)
      (free : ∀ jobId job, db.jobs.get? jobId = some job → ∀ id ∈ ids, job.admissionId ≠ some id)
      (dropped : db'.admissions = db.admissions.keep fun id _ => ¬ids.contains id) : Prunes env db db'
  | trans {db db₁ db₂ : Db} (first : Prunes env db db₁) (second : Prunes env db₁ db₂) : Prunes env db db₂

namespace Prunes

theorem of_eq (core : db₁.toCore = db.toCore) (kept : db₁.admissions = db.admissions) : Prunes env db db₁ :=
  .jobs (core ▸ .refl _) kept

theorem refl (db : Db) : Prunes env db db := .of_eq rfl rfl

theorem after_aside (prunes : Prunes env db₁ db₂) (core : db₁.toCore = db.toCore)
    (kept : db₁.admissions = db.admissions) : Prunes env db db₂ :=
  (of_eq core kept).trans prunes

theorem mint (env : Env) (db : Db) : Prunes env db { db with nextUuid := db.nextUuid + 1 } :=
  .jobs (.single (.mint db.toCore) fun _ _ => Label.noConfusion) rfl

theorem of_path {S : Set Label} (path : Path env S db db₁) (labels : S ⊆ unlinked) : Prunes env db db₁ :=
  .jobs (path.steps.mono labels) (congrArg (·.2.2.2.2) path.settings)

theorem nextUuid_le (prunes : Prunes env db db₁) : db.nextUuid ≤ db₁.nextUuid := by
  induction prunes with
  | jobs steps => exact steps.nextUuid_le
  | drop _ core => exact core ▸ le_rfl
  | trans _ _ first second => exact first.trans second

/-- No row is added or rewritten. -/
theorem fewer (prunes : Prunes env db db₁) {id : Uuid} {a : Admission}
    (here : db₁.admissions.get? id = some a) : db.admissions.get? id = some a := by
  induction prunes with
  | jobs _ kept => exact kept ▸ here
  | drop ids _ _ _ dropped =>
    rw [dropped, Table.get?_keep] at here
    exact (Option.filter_eq_some_iff.mp here).1
  | trans _ _ first second => exact first (second here)

/-- A job that carries an admission carried it before, and the admission keeps its row. -/
theorem carried (prunes : Prunes env db db₁) {jobId : Uuid} {job : Job}
    (stored : db₁.jobs.get? jobId = some job) (carries : job.admissionId = some id) :
    (∃ job, db.jobs.get? jobId = some job ∧ job.admissionId = some id) ∧
      db₁.admissions.get? id = db.admissions.get? id := by
  induction prunes generalizing job with
  | jobs steps kept => exact ⟨steps.carried (fun member => member _ _ rfl) stored carries, by rw [kept]⟩
  | drop ids core _ free dropped =>
    have before : _ = some job := (congrArg (fun c => c.jobs.get? jobId) core).symm.trans stored
    refine ⟨⟨job, before, carries⟩, ?_⟩
    have apart : id ∉ ids := fun member => free jobId job before id member carries
    rw [dropped, Table.get?_keep]
    cases here : Table.get? _ id with
    | none => rfl
    | some a => exact Option.filter_some_pos (by simp [apart])
  | trans _ _ first second =>
    obtain ⟨⟨between, there, carried⟩, kept⟩ := second stored carries
    obtain ⟨earlier, same⟩ := first there carried
    exact ⟨earlier, kept.trans same⟩

end Prunes

end Taskq
