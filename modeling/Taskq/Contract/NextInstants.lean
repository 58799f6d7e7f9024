import Taskq.Contract.Evaluation

/-! The next instant of a cron expression: the earlier fold of a matching wall time, with no other between the
given instant and it. -/
namespace Taskq
open Relational

variable {cron : Croniter} {zone : ZoneInfo} {after t u w : Time}

/-- The instants that the matching wall times stand for. -/
def Croniter.Resolves (cron : Croniter) (zone : ZoneInfo) (t : Time) : Prop :=
  ∃ w ∈ cron.fires, resolvedWallTime zone w = some t

/-- A wall time that the search from an instant takes. -/
def Taken (zone : ZoneInfo) (after w : Time) : Prop := ∃ t, resolvedWallTime zone w = some t ∧ after < t

/-- The matching wall times after that of an instant, up to the first that is accepted. -/
def Croniter.rejected (cron : Croniter) (zone : ZoneInfo) (after : Time) : Set Time :=
  {w ∈ cron.fires | zone.wall after < w ∧
    ∀ v ∈ cron.fires, zone.wall after < v → v ≤ w → ¬Taken zone after v}

theorem not_taken_iff : ¬Taken zone after w ↔ ∀ t, zone.read w = some t → t ≤ after := by
  simp only [Taken, resolvedWallTime_eq, not_exists, not_and, not_lt]

/-- A wall time not after that of an instant stands for none after it. -/
theorem read_le_of_le_wall (read : zone.read w = some u) (early : w ≤ zone.wall t) : u ≤ t := by
  obtain ⟨first, before, shown⟩ := zone.read_wall t
  obtain rfl | earlier := early.eq_or_lt
  · exact (Option.some.inj (read.symm.trans shown)).trans_le before
  · exact (WallClock.read_mono read shown earlier).le.trans before

/-- Nothing lies between an instant and the first accepted wall time after its own. -/
theorem first_accepted_least (found : zone.read w = some t)
    (first : ∀ v ∈ cron.fires, zone.wall after < v → v < w → ¬Taken zone after v)
    (resolves : cron.Resolves zone u) (later : after < u) : t ≤ u := by
  obtain ⟨v, fires, resolved⟩ := resolves
  have read : zone.read v = some u := resolvedWallTime_eq ▸ resolved
  have beyond : zone.wall after < v := by
    by_contra early
    exact (read_le_of_le_wall read (not_lt.mp early)).not_gt later
  obtain earlier | rfl | afterwards := lt_trichotomy v w
  · exact absurd ⟨u, resolved, later⟩ (first v fires beyond earlier)
  · exact (Option.some.inj (found.symm.trans read)).le
  · exact (WallClock.read_mono found read afterwards).le

/-- The first accepted wall time ends the rejected ones. -/
theorem rejected_eq (fires : w ∈ cron.fires) (beyond : zone.wall after < w) (accepted : Taken zone after w)
    (first : ∀ v ∈ cron.fires, zone.wall after < v → v < w → ¬Taken zone after v) :
    cron.rejected zone after = cron.fires ∩ Set.Ioo (zone.wall after) w := by
  ext v
  constructor
  · rintro ⟨inside, late, refused⟩
    exact ⟨inside, late, not_le.mp fun reached => refused w fires beyond reached accepted⟩
  · rintro ⟨inside, late, early⟩
    exact ⟨inside, late, fun x member low reached => first x member low (reached.trans_lt early)⟩

/-- Among the accepted wall times after that of an instant there is a first one. -/
theorem exists_first_accepted (fires : w ∈ cron.fires) (beyond : zone.wall after < w)
    (accepted : Taken zone after w) : ∃ v ∈ cron.fires, zone.wall after < v ∧ Taken zone after v ∧
      ∀ x ∈ cron.fires, zone.wall after < x → x < v → ¬Taken zone after x := by
  obtain ⟨v, ⟨inside, late, taken⟩, least⟩ := Int.exists_least_of_bdd
    (P := fun v => v ∈ cron.fires ∧ zone.wall after < v ∧ Taken zone after v)
    ⟨zone.wall after, fun v there => there.2.1.le⟩ ⟨w, fires, beyond, accepted⟩
  exact ⟨v, inside, late, taken, fun x member low early held => (least x ⟨member, low, held⟩).not_gt early⟩

/-- The next instant is after the given one and the first of a matching wall time, with none of another
between them; there is one exactly when a matching wall time is accepted before 370 are rejected. -/
theorem cronNext_exact (cron : Croniter) (zone : ZoneInfo) (after : Time) :
    (∀ t, cronNext cron zone after = .ok t → after < t ∧
      (∃ w ∈ cron.fires, resolvedWallTime zone w = some t ∧ IsLeast {u | zone.wall u = w} t) ∧
      ∀ u, cron.Resolves zone u → ¬(after < u ∧ u < t)) ∧
    ((∃ t, cronNext cron zone after = .ok t) ↔
      (∃ w ∈ cron.fires, zone.wall after < w ∧ Taken zone after w) ∧
      (cron.rejected zone after).encard < 370) := by
  refine ⟨fun t run => ?_, fun ⟨t, run⟩ => ?_, fun ⟨⟨w, fires, beyond, accepted⟩, few⟩ => ?_⟩
  · obtain ⟨w, fires, beyond, ⟨read, later⟩, before, -⟩ := cronNext_eq_ok.mp run
    refine ⟨later, ⟨w, fires, resolvedWallTime_eq.trans read, WallClock.read_eq_some_iff_isLeast.mp read⟩, ?_⟩
    rintro u resolves ⟨low, high⟩
    have first (v) (inside : v ∈ cron.fires) (late : zone.wall after < v) (early : v < w) :
        ¬Taken zone after v := not_taken_iff.mpr (before v inside late early)
    exact (first_accepted_least read first resolves low).not_gt high
  · obtain ⟨w, fires, beyond, ⟨read, later⟩, before, few⟩ := cronNext_eq_ok.mp run
    have accepted : Taken zone after w := ⟨t, resolvedWallTime_eq.trans read, later⟩
    refine ⟨⟨w, fires, beyond, accepted⟩, ?_⟩
    rw [rejected_eq fires beyond accepted fun v inside late early => not_taken_iff.mpr (before v inside late early),
      ← Set.Finite.cast_ncard_eq ((Set.finite_Ioo _ _).subset Set.inter_subset_right)]
    exact_mod_cast few
  · obtain ⟨v, inside, late, accepted, first⟩ := exists_first_accepted fires beyond accepted
    obtain ⟨t, resolved, later⟩ := id accepted
    rw [rejected_eq inside late accepted first,
      ← Set.Finite.cast_ncard_eq ((Set.finite_Ioo _ _).subset Set.inter_subset_right)] at few
    exact ⟨t, cronNext_eq_ok.mpr ⟨v, inside, late, ⟨resolvedWallTime_eq ▸ resolved, later⟩,
      fun x member low early => not_taken_iff.mp (first x member low early), by exact_mod_cast few⟩⟩

/-- The expression of a day that no month has matches nothing. -/
def noDay : Croniter where
  fires := ∅
  getNext _ := none
  getPrev _ := none
  forward := ⟨nofun, fun _ _ => nofun⟩
  backward := ⟨nofun, fun _ _ => nofun⟩

/-- The thirty-first of February is accepted and rejects no wall time, yet it has no next instant. -/
theorem cronNext_of_no_day : validateCron (fun _ => some utc) "0 0 31 2 *" "UTC" = .ok () ∧
    (noDay.rejected utc 0).encard < 370 ∧ cronNext noDay utc 0 = .error .badDate := by
  refine ⟨by decide, ?_, rfl⟩
  have none : noDay.rejected utc 0 = ∅ := Set.eq_empty_of_forall_notMem fun w there => there.1
  rw [none, Set.encard_empty]
  decide

end Taskq
