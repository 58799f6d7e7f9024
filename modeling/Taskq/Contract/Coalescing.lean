import Taskq.Contract.Evaluation

/-! The latest due instant of a cron recurrence: the search back from the wall clock of the claim, and the
repeated walls that it cannot see. -/
namespace Taskq
open Relational

variable {libraries : Libraries} {recurrence : Jsonb} {policy : CatchupPolicy} {maxCatchup : ℤ} {initialized : Bool}
  {due cutoff asOf : Time} {smear : ℤ} {cron : Croniter} {zone : ZoneInfo} {e : ScheduleEvaluation} {t u v w g : Time}

/-- The instants of a cron recurrence: the first at which a clock of the zone shows a matching wall time. -/
def Recurs (cron : Croniter) (zone : ZoneInfo) (t : Time) : Prop :=
  zone.wall t ∈ cron.fires ∧ ∀ u, zone.wall u = zone.wall t → t ≤ u

theorem recurs_iff : Recurs cron zone t ↔ ∃ w ∈ cron.fires, zone.read w = some t := by
  constructor
  · rintro ⟨fires, first⟩
    exact ⟨_, fires, WallClock.read_eq_some_iff_isLeast.mpr ⟨rfl, fun u same => first u same⟩⟩
  · rintro ⟨w, fires, read⟩
    obtain ⟨rfl, first⟩ := WallClock.read_eq_some_iff_isLeast.mp read
    exact ⟨fires, fun u same => first same⟩

/-- The clock of the claim is not in a repeated period with a matching wall time ahead, and less than 370 matching
wall times on either side of it are skipped. -/
structure Coalescible (cron : Croniter) (zone : ZoneInfo) (asOf : Time) : Prop where
  unrepeated : ∀ w ∈ cron.fires, zone.wall asOf < w → ∀ t, zone.read w = some t → asOf < t
  behind : ∃ w ∈ cron.fires, w ≤ zone.wall asOf ∧ (zone.read w).isSome ∧
    (cron.fires ∩ Set.Ioc w (zone.wall asOf)).ncard < 370
  ahead : ∃ w ∈ cron.fires, zone.wall asOf < w ∧ (zone.read w).isSome ∧
    (cron.fires ∩ Set.Ioo (zone.wall asOf) w).ncard < 370

section Search

/-- A wall time up to that of an instant is first shown by then, if at all. -/
theorem read_le (read : zone.read w = some t) (early : w ≤ zone.wall cutoff) : t ≤ cutoff := by
  obtain ⟨first, before, shown⟩ := zone.read_wall cutoff
  obtain rfl | less := early.eq_or_lt
  · cases read.symm.trans shown
    exact before
  · exact (WallClock.read_mono read shown less).le.trans before

/-- Fewer matching wall times lie in a smaller interval. -/
theorem ncard_Ioc_le (later : v ≤ w) : (cron.fires ∩ Set.Ioc w u).ncard ≤ (cron.fires ∩ Set.Ioc v u).ncard :=
  Set.ncard_le_ncard (Set.inter_subset_inter_right _ (Set.Ioc_subset_Ioc_left later))
    ((Set.finite_Ioc v u).subset Set.inter_subset_right)

theorem ncard_Ioo_le (later : v ≤ w) : (cron.fires ∩ Set.Ioo u v).ncard ≤ (cron.fires ∩ Set.Ioo u w).ncard :=
  Set.ncard_le_ncard (Set.inter_subset_inter_right _ (Set.Ioo_subset_Ioo_right later))
    ((Set.finite_Ioo u w).subset Set.inter_subset_right)

/-- The search back finds the greatest instant exactly if no matching wall ahead has been shown and it does not
give up. -/
theorem cronLatest_isGreatest :
    (∃ g, cronLatest cron zone cutoff = .ok g ∧ IsGreatest {t | Recurs cron zone t ∧ t ≤ cutoff} g) ↔
      (∀ w ∈ cron.fires, zone.wall cutoff < w → ∀ t, zone.read w = some t → cutoff < t) ∧
      ∃ w ∈ cron.fires, w ≤ zone.wall cutoff ∧ (zone.read w).isSome ∧
        (cron.fires ∩ Set.Ioc w (zone.wall cutoff)).ncard < 370 := by
  simp only [cronLatest_eq_ok]
  constructor
  · rintro ⟨g, ⟨w, fires, early, ⟨read, -⟩, -, few⟩, -, greatest⟩
    refine ⟨fun v member ahead t shown => ?_, w, fires, early, by rw [read]; rfl, few⟩
    by_contra seen
    have above := greatest ⟨recurs_iff.mpr ⟨v, member, shown⟩, not_lt.mp seen⟩
    exact absurd (WallClock.read_mono read shown (early.trans_lt ahead)) above.not_gt
  · rintro ⟨unrepeated, near, fires, early, exist, few⟩
    obtain ⟨w, ⟨member, low, shown⟩, last⟩ := Int.exists_greatest_of_bdd
      (P := fun w => w ∈ cron.fires ∧ w ≤ zone.wall cutoff ∧ (zone.read w).isSome) ⟨zone.wall cutoff, fun _ h => h.2.1⟩
      ⟨near, fires, early, exist⟩
    obtain ⟨g, read⟩ := Option.isSome_iff_exists.mp shown
    refine ⟨g, ⟨w, member, low, ⟨read, read_le read low⟩, fun v there high beyond u shows => ?_, ?_⟩,
      ⟨recurs_iff.mpr ⟨w, member, read⟩, read_le read low⟩, ?_⟩
    · have within := last v ⟨there, high, by rw [shows]; rfl⟩
      exact absurd beyond within.not_gt
    · exact (ncard_Ioc_le (last near ⟨fires, early, exist⟩)).trans_lt few
    · rintro t ⟨recurs, past⟩
      obtain ⟨v, there, shows⟩ := recurs_iff.mp recurs
      have high : v ≤ zone.wall cutoff := by
        by_contra ahead
        exact absurd (unrepeated v there (not_le.mp ahead) t shows) past.not_gt
      obtain rfl | less := (last v ⟨there, high, by rw [shows]; rfl⟩).eq_or_lt
      · cases shows.symm.trans read
        exact le_rfl
      · exact (WallClock.read_mono shows read less).le

/-- The search ahead succeeds under the same condition unless it gives up. -/
theorem cronNext_ok (unrepeated : ∀ w ∈ cron.fires, zone.wall cutoff < w → ∀ t, zone.read w = some t → cutoff < t) :
    (∃ t, cronNext cron zone cutoff = .ok t) ↔ ∃ w ∈ cron.fires, zone.wall cutoff < w ∧ (zone.read w).isSome ∧
      (cron.fires ∩ Set.Ioo (zone.wall cutoff) w).ncard < 370 := by
  simp only [cronNext_eq_ok]
  constructor
  · rintro ⟨t, w, fires, late, ⟨read, -⟩, -, few⟩
    exact ⟨w, fires, late, by rw [read]; rfl, few⟩
  · rintro ⟨near, fires, late, exist, few⟩
    obtain ⟨w, ⟨member, high, shown⟩, first⟩ := Int.exists_least_of_bdd
      (P := fun w => w ∈ cron.fires ∧ zone.wall cutoff < w ∧ (zone.read w).isSome)
      ⟨zone.wall cutoff, fun _ h => h.2.1.le⟩ ⟨near, fires, late, exist⟩
    obtain ⟨t, read⟩ := Option.isSome_iff_exists.mp shown
    refine ⟨t, w, member, high, ⟨read, unrepeated w member high t read⟩, fun v there low before u shows => ?_, ?_⟩
    · have within := first v ⟨there, low, by rw [shows]; rfl⟩
      exact absurd before within.not_gt
    · exact (ncard_Ioo_le (first near ⟨fires, late, exist⟩)).trans_lt few

end Search

section Evaluate

/-- The smear moves an evaluation, whatever it is. -/
theorem evaluateSchedule_eq_ok :
    evaluateSchedule libraries recurrence policy maxCatchup initialized due asOf smear = .ok e ↔
      ∃ base, evaluateBase libraries recurrence policy maxCatchup initialized (due - seconds smear)
        (asOf - seconds smear) = .ok base ∧ base.shift (seconds smear) = e := by
  unfold evaluateSchedule
  split_ifs with smeared
  · simp only [seq_eq_ok, Except.ok.injEq]
  · have still : seconds smear = 0 := by simp [not_not.mp smeared, seconds]
    simp [still, ScheduleEvaluation.shift]

/-- A valid cron recurrence under `fire_once`. -/
theorem evaluateBase_cron {expression timezone : String} (kind : recurrence.field? "kind" = some (.str "cron"))
    (given : recurrence.field? "expression" = some (.str expression))
    (place : recurrence.field? "timezone" = some (.str timezone))
    (valid : validateCron libraries.zoneInfo expression timezone = .ok ())
    (known : libraries.zoneInfo timezone = some zone) (limit : 1 ≤ maxCatchup ∧ maxCatchup ≤ 100)
    (late : due ≤ cutoff) :
    evaluateBase libraries recurrence .fireOnce maxCatchup true due cutoff = .ok e ↔
      ∃ latest next, cronLatest (libraries.croniter expression) zone cutoff = .ok latest ∧ due ≤ latest ∧
        cronNext (libraries.croniter expression) zone cutoff = .ok next ∧ e = ⟨[latest], next⟩ := by
  have parsed : cronOf libraries recurrence = .ok (libraries.croniter expression, zone) := by
    simp [cronOf, given, place, valid, known, Except.mapError, bind, Except.bind]
  simp only [evaluateBase, latestInstant, nextInstant, kind, parsed, seq_eq_ok, ensure_eq_ok, late, limit, and_self,
    exists_const, true_and, Bool.true_eq_false, reduceCtorEq, or_self, if_false, if_true, Option.some.injEq,
    Jsonb.str.injEq, (by decide : "cron" ≠ "interval"), Except.ok.injEq, exists_eq_left']
  constructor
  · rintro ⟨latest, found, after, next, step, rfl⟩
    exact ⟨latest, next, found, after, step, rfl⟩
  · rintro ⟨latest, next, found, after, step, rfl⟩
    exact ⟨latest, found, after, next, step, rfl⟩

/-- Under `fire_once` a cron schedule that is due proposes its greatest instant up to the claim exactly if no
matching wall time ahead of the claim's clock has been shown and neither search gives up. -/
theorem fire_once_coalesces {expression timezone : String} (kind : recurrence.field? "kind" = some (.str "cron"))
    (given : recurrence.field? "expression" = some (.str expression))
    (place : recurrence.field? "timezone" = some (.str timezone))
    (valid : validateCron libraries.zoneInfo expression timezone = .ok ())
    (known : libraries.zoneInfo timezone = some zone) (limit : 1 ≤ maxCatchup ∧ maxCatchup ≤ 100)
    (late : due ≤ asOf) (recurs : Recurs (libraries.croniter expression) zone (due - seconds smear)) :
    (∃ e g, evaluateSchedule libraries recurrence .fireOnce maxCatchup true due asOf smear = .ok e ∧
      IsGreatest {t | Recurs (libraries.croniter expression) zone (t - seconds smear) ∧ t ≤ asOf} g ∧
      e.occurrences = [g]) ↔ Coalescible (libraries.croniter expression) zone (asOf - seconds smear) := by
  have order : due - seconds smear ≤ asOf - seconds smear := sub_le_sub_right late _
  have shifted {g : Time} : IsGreatest {t | Recurs (libraries.croniter expression) zone (t - seconds smear) ∧ t ≤ asOf}
      (g + seconds smear) ↔
      IsGreatest {t | Recurs (libraries.croniter expression) zone t ∧ t ≤ asOf - seconds smear} g := by
    constructor
    · rintro ⟨⟨recurs, past⟩, greatest⟩
      refine ⟨⟨by simpa using recurs, le_sub_iff_add_le.mpr past⟩, fun t ⟨recurs, past⟩ => ?_⟩
      exact le_of_add_le_add_right (greatest ⟨by simpa using recurs, le_sub_iff_add_le.mp past⟩)
    · rintro ⟨⟨recurs, past⟩, greatest⟩
      refine ⟨⟨by simpa using recurs, le_sub_iff_add_le.mp past⟩, fun t ⟨recurs, past⟩ => ?_⟩
      exact sub_le_iff_le_add.mp (greatest ⟨recurs, sub_le_sub_right past _⟩)
  simp only [evaluateSchedule_eq_ok, evaluateBase_cron kind given place valid known limit order]
  constructor
  · rintro ⟨_, g, ⟨_, ⟨latest, next, found, -, step, rfl⟩, rfl⟩, greatest, dues⟩
    obtain rfl : latest + seconds smear = g := by simpa [ScheduleEvaluation.shift] using dues
    obtain ⟨unrepeated, behind⟩ := cronLatest_isGreatest.mp ⟨latest, found, shifted.mp greatest⟩
    exact ⟨unrepeated, behind, (cronNext_ok unrepeated).mp ⟨next, step⟩⟩
  · rintro ⟨unrepeated, behind, ahead⟩
    obtain ⟨latest, found, greatest⟩ := cronLatest_isGreatest.mpr ⟨unrepeated, behind⟩
    obtain ⟨next, step⟩ := (cronNext_ok unrepeated).mpr ahead
    exact ⟨_, latest + seconds smear, ⟨_, ⟨latest, next, found, greatest.2 ⟨recurs, order⟩, step, rfl⟩, rfl⟩,
      shifted.mpr greatest, rfl⟩

/-- A job at half past one, every day. -/
def halfPastOne : Jsonb :=
  .build [("kind", .str "cron"), ("expression", .str "30 1 * * *"), ("timezone", .str "America/New_York")]

/-- In a zone without changes it coalesces. -/
theorem fire_once_coalesces_utc : ∃ e g,
    evaluateSchedule (.only (.daily 5400000000) utc) halfPastOne .fireOnce 1 true 5400000000 5460000000 0 = .ok e ∧
    IsGreatest {t | Recurs (.daily 5400000000) utc (t - seconds 0) ∧ t ≤ 5460000000} g ∧ e.occurrences = [g] := by
  have shown {w t : ℤ} : utc.read w = some t ↔ t = w := by
    rw [WallClock.read_eq_some]
    constructor
    · rintro ⟨rfl, -⟩
      exact sub_zero w
    · rintro rfl
      exact ⟨(sub_zero t).symm, add_zero t⟩
  have once {v : ℤ} (fires : (v - 5400000000) % 86400000000 = 0) : ¬(5400000000 < v ∧ v < 91800000000) := by
    omega
  have few {S : Set ℤ} (none : ∀ v ∈ (Croniter.daily 5400000000).fires, v ∉ S) :
      ((Croniter.daily 5400000000).fires ∩ S).ncard < 370 := by
    rw [Set.eq_empty_of_forall_notMem fun v (member : v ∈ _ ∩ S) => none v member.1 member.2, Set.ncard_empty]
    decide
  refine (@fire_once_coalesces (.only (.daily 5400000000) utc) halfPastOne 1 5400000000 5460000000 0 utc
    "30 1 * * *" "America/New_York" rfl rfl rfl (by decide) rfl
    ⟨by decide, by decide⟩ (by decide) (recurs_iff.mpr ⟨5400000000, Croniter.mem_daily.mpr (by decide), shown.mpr rfl⟩)).mpr ⟨?_, ?_, ?_⟩
  · intro w _ ahead t read
    rw [shown.mp read]
    exact ahead
  · refine ⟨5400000000, Croniter.mem_daily.mpr (by decide), by decide, by decide, ?_⟩
    exact few fun v fires inside => once fires ⟨inside.1, lt_of_le_of_lt inside.2 (by decide)⟩
  · refine ⟨91800000000, Croniter.mem_daily.mpr (by decide), by decide, by decide, ?_⟩
    exact few fun v fires inside => once fires ⟨lt_of_lt_of_le (by decide) inside.1.le, inside.2⟩

/-- New York when daylight saving time ends in 2025. -/
def newYork : ZoneInfo := ⟨-14400000000, [(1762063200000000, -18000000000)], by decide⟩

/-- Ten minutes into the repeated hour the instant of half past one has passed, but the search back does not see
it, and the claim is given up. -/
theorem fire_once_coalesces_repeated :
    Recurs (.daily 5400000000) newYork 1762061400000000 ∧
    validateCron (fun _ => some newYork) "30 1 * * *" "America/New_York" = .ok () ∧
    evaluateSchedule (.only (.daily 5400000000) newYork) halfPastOne .fireOnce 1 true 1762061400000000
      1762063800000000 0 = .error (.validation "schedule_claim") := by
  refine ⟨recurs_iff.mpr ⟨1762047000000000, Croniter.mem_daily.mpr (by decide), by decide⟩, by decide, by decide +kernel⟩

end Evaluate

end Taskq
