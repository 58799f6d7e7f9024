import Taskq.Invariants.Identifiers

/-! The table of schedules over a run: names are unique, and every schedule has the target of the seeded
maintenance schedule or that of a definition. -/
namespace Taskq
open Relational

variable {env : Env} {db db' : Db} {command : Command} {site : Site}
  {allowed : System → Env → Command → Prop} {s t : System}

/-- What a call does to the schedules is a sequence of writes. -/
theorem Command.schedule_writes (run : command.exec env db = .ok db') :
    ScheduleWrites env.toSite db.scheduling.schedules db'.scheduling.schedules := by
  have kept := (Command.exec_effect run).2.2
  cases command with
  | bindQueueAdmissionOwner => exact (bindQueueAdmissionOwner_assigns run).writes
  | adoptQueueAdmissionOwner => exact (adoptQueueAdmissionOwner_assigns run).writes
  | rotateQueueAdmissionOwner => exact (rotateQueueAdmissionOwner_assigns run).writes
  | putSchedule => exact (map_snd_eq_ok.mp run).elim fun _ run => (putSchedule_path run).writes
  | putManagedSchedule => exact (map_snd_eq_ok.mp run).elim fun _ run => (putManagedSchedule_path run).writes
  | setScheduleState => exact (map_snd_eq_ok.mp run).elim fun _ run => (setScheduleState_path run).writes
  | retireSchedule => exact (map_snd_eq_ok.mp run).elim fun _ run => (retireSchedule_path run).writes
  | setScheduleSmear => exact (setScheduleSmear_path run).writes
  | claimSchedules => exact (map_snd_eq_ok.mp run).elim fun _ run => (claimSchedules_path run).writes
  | scheduleError => exact (map_snd_eq_ok.mp run).elim fun _ run => (scheduleError_path run).writes
  | fireSchedule =>
    obtain ⟨answer, run⟩ := map_snd_eq_ok.mp run
    obtain ⟨rfl, -⟩ | fired := fireSchedule_runs run
    · exact .refl
    · cases fired with
      | @intro s stored claim result mid decision d found current accepted performs later _ row after =>
        subst after
        rw [← performs.schedules] at found ⊢
        exact .single (.rewrite found (by rw [row]; rfl) (.inl (by rw [row]; rfl)))
  | ensureQueue | pauseQueue | resumeQueue | setConcurrencyLimit | setFlowLimit | setBreakerConfig | setBreakerRate
  | setBreakerLatency | tripBreaker | forceCloseBreaker | setPriorityAging =>
    have same : db'.scheduling = db.scheduling := kept.1
    rw [same]
  | janitor =>
    have same : db'.scheduling.schedules = db.scheduling.schedules := kept.1
    rw [same]
  | _ =>
    have same : db'.scheduling = db.scheduling := kept.1
    rw [same]

/-- Names are unique, and targets are normalised but for the maintenance schedule's. -/
structure Timetabled (site : Site) (t : Table Uuid Schedule) : Prop where
  names : ∀ id id' s s', t.get? id = some s → t.get? id' = some s' → s.name = s'.name → id = id'
  targets : ∀ id s, t.get? id = some s → s.target.fieldText? "kind" = some "maintenance" ∨ Normalized site s.target

theorem Timetabled.write {t t' : Table Uuid Schedule} (ok : Timetabled site t) (write : ScheduleWrite site t t') :
    Timetabled site t' := by
  cases write with
  | @rewrite id s s' stored name target =>
    refine ⟨fun a b r r' first second same => ?_, fun a r here => ?_⟩
    · have named {a : Uuid} {r : Schedule} (here : (t.put id s').get? a = some r) :
          ∃ old, t.get? a = some old ∧ old.name = r.name := by
        rw [Table.get?_put] at here
        split_ifs at here with own
        · cases here
          exact ⟨s, own ▸ stored, name.symm⟩
        · exact ⟨r, here, rfl⟩
      obtain ⟨old, there, was⟩ := named first
      obtain ⟨old', there', was'⟩ := named second
      exact ok.names a b old old' there there' (by rw [was, was', same])
    · rw [Table.get?_put] at here
      split_ifs at here with own
      · cases here
        obtain kept | normal := target
        · rw [kept]
          exact ok.targets id s stored
        · exact .inr normal
      · exact ok.targets a r here
  | @create id s fresh named normal =>
    refine ⟨fun a b r r' first second same => ?_, fun a r here => ?_⟩
    · rw [Table.get?_put] at first second
      split_ifs at first second with own own'
      · rw [own, own']
      · cases first
        exact absurd same.symm (named b r' second)
      · cases second
        exact absurd same (named a r first)
      · exact ok.names a b r r' first second same
    · rw [Table.get?_put] at here
      split_ifs at here
      · cases here
        exact .inr normal
      · exact ok.targets a r here
  | @retag f kept =>
    refine ⟨fun a b r r' first second same => ?_, fun a r here => ?_⟩
    · rw [Table.get?_mapRows, Option.map_eq_some_iff] at first second
      obtain ⟨old, there, rfl⟩ := first
      obtain ⟨old', there', rfl⟩ := second
      rw [(kept old).1, (kept old').1] at same
      exact ok.names a b old old' there there' same
    · rw [Table.get?_mapRows, Option.map_eq_some_iff] at here
      obtain ⟨old, there, rfl⟩ := here
      rw [(kept old).2]
      exact ok.targets a old there

theorem Timetabled.writes {t t' : Table Uuid Schedule} (ok : Timetabled site t) (writes : ScheduleWrites site t t') :
    Timetabled site t' := by
  induction writes with
  | refl => exact ok
  | tail _ write ih => exact ih.write write

theorem System.Reachable.timetabled (reachable : System.Reachable site allowed s) :
    Timetabled site s.db.scheduling.schedules := by
  refine reachable.induction (I := fun s => Timetabled site s.db.scheduling.schedules) (fun now => ?_)
    fun ok _ (.commit server _ run) => ok.writes (server ▸ Command.schedule_writes run)
  have only {a : Uuid} {r : Schedule} (here : (Db.installed site now).scheduling.schedules.get? a = some r) :
      a = 1 ∧ r = ⟨janitorSchedule site now, rfl⟩ := by
    simp only [Db.installed, Table.get?_put] at here
    split_ifs at here with own
    · cases here
      exact ⟨own, rfl⟩
    · cases here
  refine ⟨fun a b r r' first second _ => (only first).1.trans (only second).1.symm, fun a r here => .inl ?_⟩
  rw [(only here).2]
  rfl

/-- The name of a stored schedule leads to it. -/
theorem Timetabled.byName (ok : Timetabled site db.scheduling.schedules) {id : Uuid} {r : Schedule}
    (stored : db.scheduling.schedules.get? id = some r) : scheduleByName db r.name = some (id, r) := by
  cases found : scheduleByName db r.name with
  | none => exact absurd rfl (scheduleByName_eq_none found stored)
  | some e =>
    obtain ⟨there, named⟩ := Table.mem_select.mp (List.mem_of_mem_head? found)
    have same := ok.names e.1 id e.2 r there stored (of_decide_eq_true named)
    rw [same, stored] at there
    cases there
    rw [← same]

end Taskq
