import Taskq.Lifecycle.ClaimPaths

/-! The candidates of a claim in the order in which the claim loop meets them: each scan of the loop
takes the first of the lineup, and a candidate that was started or passed over leaves it. -/
namespace Taskq
open Relational

theorem claimLe_order (rank : JobRow → ℤ) : Table.RowOrder (claimLe rank) where
  total a b := by
    simp only [claimLe, Bool.or_eq_true, Bool.and_eq_true, decide_eq_true_eq]
    rcases lt_trichotomy (rank a.2.toJobRow) (rank b.2.toJobRow) with h | h | h
    · grind
    · rcases lt_trichotomy a.2.scheduledAt b.2.scheduledAt with h' | h' | h'
      · grind
      · have := Nat.le_total a.1 b.1
        grind
      · grind
    · grind
  trans a b c first second := by
    simp only [claimLe, Bool.or_eq_true, Bool.and_eq_true, decide_eq_true_eq] at first second ⊢
    have keys : a.1 ≤ b.1 → b.1 ≤ c.1 → a.1 ≤ c.1 := Nat.le_trans
    grind
  key a b below above := by
    simp only [claimLe, Bool.or_eq_true, Bool.and_eq_true, decide_eq_true_eq] at below above
    have keys : a.1 ≤ b.1 → b.1 ≤ a.1 → a.1 = b.1 := Nat.le_antisymm
    grind

/-- Which jobs a claim can take and how it ranks them. -/
structure Preference where
  supports : JobRow → Bool
  rank : JobRow → ℤ

section Lineup

variable {env : Env} {args : ClaimArgs} {prefers : Preference} {saturated : String → Bool}
  {scan scan' : Scan} {core core' : Core} {id : Uuid} {job : Job}

/-- The job passes every filter of the scan, and no other transaction holds its row. -/
def eligible (env : Env) (args : ClaimArgs) (prefers : Preference) (saturated : String → Bool)
    (scan : Scan) (core : Core) (id : Uuid) (job : Job) : Bool :=
  claimable env core args job.toJobRow && prefers.supports job.toJobRow &&
    scan.admits saturated id job.toJobRow && args.jobId.all (· = id) && !env.locked id

/-- The eligible jobs that a predicate selects, in claim order. -/
def lined (env : Env) (args : ClaimArgs) (prefers : Preference) (saturated : String → Bool)
    (scan : Scan) (core : Core) (p : Job → Bool) : List (Uuid × Job) :=
  core.jobs.selectBy (fun id job => eligible env args prefers saturated scan core id job && p job)
    (claimLe prefers.rank)

/-- The eligible jobs in claim order; those with the affinity of the claim go first. -/
def lineup (env : Env) (args : ClaimArgs) (prefers : Preference) (saturated : String → Bool)
    (scan : Scan) (core : Core) : List (Uuid × Job) :=
  match scan.affinity, args.jobId with
  | some key, none =>
    lined env args prefers saturated scan core (fun j => j.affinityKey = some key) ++
      lined env args prefers saturated scan core (fun j => j.affinityKey ≠ some key)
  | _, _ => lined env args prefers saturated scan core fun _ => true

theorem mem_lined {p : Job → Bool} : (id, job) ∈ lined env args prefers saturated scan core p ↔
    core.jobs.get? id = some job ∧ eligible env args prefers saturated scan core id job = true ∧
      p job = true := by
  simp [lined]

theorem mem_lineup : (id, job) ∈ lineup env args prefers saturated scan core ↔
    core.jobs.get? id = some job ∧ eligible env args prefers saturated scan core id job = true := by
  unfold lineup
  split
  · rename_i key _ _
    simp only [List.mem_append, mem_lined, decide_eq_true_eq, ← and_or_left,
      Decidable.em (job.affinityKey = some key), and_true]
  · simp [mem_lined]

theorem lineup_keys_nodup :
    ((lineup env args prefers saturated scan core).map Prod.fst).Nodup := by
  unfold lineup
  split
  · rw [List.map_append, List.nodup_append]
    refine ⟨Table.selectBy_keys_nodup _ _ _, Table.selectBy_keys_nodup _ _ _, ?_⟩
    rintro _ first id second rfl
    obtain ⟨⟨_, job⟩, here, rfl⟩ := List.mem_map.mp first
    obtain ⟨⟨_, job'⟩, there, same⟩ := List.mem_map.mp second
    cases same
    obtain ⟨stored, -, preferred⟩ := mem_lined.mp here
    obtain ⟨stored', -, other⟩ := mem_lined.mp there
    cases stored.symm.trans stored'
    simp_all
  · exact Table.selectBy_keys_nodup _ _ _

/-- When one job drops out of the eligible ones, it drops out of the lineup. -/
theorem lineup_filter (affinity : scan'.affinity = scan.affinity)
    (rest : ∀ other row, core'.jobs.get? other = some row ∧
        eligible env args prefers saturated scan' core' other row = true ↔
      core.jobs.get? other = some row ∧ eligible env args prefers saturated scan core other row = true ∧
        other ≠ id) :
    lineup env args prefers saturated scan' core' =
      (lineup env args prefers saturated scan core).filter fun e => e.1 ≠ id := by
  have dropped (p : Job → Bool) : lined env args prefers saturated scan' core' p =
      (lined env args prefers saturated scan core p).filter fun e => e.1 ≠ id := by
    unfold lined
    rw [Table.filter_selectBy (claimLe_order _) core.jobs _ fun other _ => decide (other ≠ id)]
    refine Table.selectBy_congr (claimLe_order _) fun other row => ?_
    simp only [Bool.and_eq_true, decide_eq_true_eq, ← and_assoc, and_right_comm]
    have := rest other row
    grind
  unfold lineup
  rw [affinity]
  split
  · rw [List.filter_append, dropped, dropped]
  · exact dropped _

theorem lineup_rest {rest : List (Uuid × Job)}
    (lines : lineup env args prefers saturated scan core = (id, job) :: rest) :
    ((lineup env args prefers saturated scan core).filter fun e => e.1 ≠ id) = rest := by
  have nodup : ((lineup env args prefers saturated scan core).map Prod.fst).Nodup := lineup_keys_nodup
  rw [lines, List.map_cons, List.nodup_cons] at nodup
  rw [lines, List.filter_cons_of_neg (by simp), List.filter_eq_self]
  intro e member
  simpa using fun same => nodup.1 (List.mem_map.mpr ⟨e, member, same⟩)

/-- A candidate that is passed over leaves the lineup. -/
theorem lineup_skip {rest : List (Uuid × Job)}
    (lines : lineup env args prefers saturated scan core = (id, job) :: rest) :
    lineup env args prefers saturated { scan with skip := scan.skip ++ [id] } core = rest := by
  rw [← lineup_rest lines]
  refine lineup_filter rfl fun other row => ?_
  simp only [eligible, Scan.admits, Bool.and_eq_true, Bool.not_eq_true', List.contains_eq_mem,
    List.mem_append, List.mem_singleton, decide_eq_false_iff_not, not_or]
  tauto

/-- A candidate that is started leaves the lineup. -/
theorem lineup_start {rest : List (Uuid × Job)} {started : Job}
    (lines : lineup env args prefers saturated scan core = (id, job) :: rest)
    (jobs : core'.jobs = core.jobs.put id started) (status : started.status = .running)
    (workflows : core'.workflows = core.workflows) :
    lineup env args prefers saturated scan core' = rest := by
  rw [← lineup_rest lines]
  refine lineup_filter rfl fun other row => ?_
  have same : workflowCancelled core' = workflowCancelled core := by
    funext row
    simp only [workflowCancelled, workflows]
  rw [jobs, Table.get?_put]
  split_ifs with own
  · simp only [Option.some.injEq, own, ne_eq, not_true_eq_false, and_false, iff_false, not_and]
    rintro rfl
    simp [eligible, claimable, status]
  · simp only [eligible, claimable, same, ne_eq, own, not_false_eq_true, and_true]

/-- Looking for the claim's affinity no more changes nothing when nobody has it. -/
theorem lineup_forget {key : String} (preferring : scan.affinity = some key) (broad : args.jobId = none)
    (nobody : lined env args prefers saturated scan core (fun j => j.affinityKey = some key) = []) :
    lineup env args prefers saturated { scan with affinity := none } core =
      lineup env args prefers saturated scan core := by
  have keep : lineup env args prefers saturated scan core =
      lined env args prefers saturated scan core (fun j => j.affinityKey ≠ some key) := by
    simp only [lineup, preferring, broad, nobody, List.nil_append]
  rw [keep]
  refine Table.selectBy_congr (claimLe_order _) fun other row => ?_
  have absent : ¬(other, row) ∈ lined env args prefers saturated scan core
      (fun j => j.affinityKey = some key) := by simp [nobody]
  rw [mem_lined] at absent
  simp only [eligible, Scan.admits, Bool.and_eq_true, decide_eq_true_eq, Bool.and_true] at absent ⊢
  tauto

end Lineup

end Taskq
