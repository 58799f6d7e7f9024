import Taskq.Claiming.Lineup
import Taskq.Library.Greedy

/-! A claim serves its lineup. The free slots of the concurrency keys and the tokens of the flow keys
are a stock; the claim loop starts exactly the jobs that the stock serves, in the order of the lineup. -/
namespace Taskq
open Relational

section Picks

variable {env : Env} {args : ClaimArgs} {prefers : Preference} {saturated : String → Bool}
  {scan scan' : Scan} {core : Core} {candidate : Option (Uuid × Job)}

/-- Every scan takes the first of the lineup, and looks no different afterwards. -/
def Follows (env : Env) (args : ClaimArgs) (prefers : Preference) (saturated : String → Bool)
    (pick : Scan → Core → Call (Option (Uuid × Job) × Scan)) : Prop :=
  ∀ {scan scan' core candidate}, pick scan core = .ok (candidate, scan') →
    candidate = (lineup env args prefers saturated scan core).head? ∧
    lineup env args prefers saturated scan' core = lineup env args prefers saturated scan core

/-- The preference of the overload without policies. -/
def ordinary (env : Env) (aging : Option ℤ) : Preference :=
  ⟨fun job => job.continuationPolicyHash.isNone, effectivePriority env aging⟩

/-- The preference of a worker that supports these policies. -/
def policied (hashes : List String) : Preference :=
  ⟨fun job => job.continuationPolicyHash.all hashes.contains, fun job => job.priority⟩

theorem firstCandidate_lined {aging : Option ℤ} {q : Uuid → JobRow → Bool}
    (run : firstCandidate env aging q core = .ok candidate) {p : Job → Bool}
    (same : ∀ id (j : Job), (q id j.toJobRow && !env.locked id) =
      (eligible env args (ordinary env aging) saturated scan core id j && p j)) :
    candidate = (lined env args (ordinary env aging) saturated scan core p).head? := by
  simp only [firstCandidate, seq_eq_ok] at run
  obtain ⟨-, -, found⟩ := run
  cases found
  have line : lined env args (ordinary env aging) saturated scan core p =
      core.jobs.selectBy (fun id j => q id j.toJobRow && !env.locked id)
        (claimLe (effectivePriority env aging)) :=
    Table.selectBy_congr (claimLe_order _) fun id j => by rw [same]
  rw [line, ← List.head?_filter, ← Table.filter_selectBy (claimLe_order _) core.jobs _ fun id _ => !env.locked id]
  rfl

theorem pickOrdinary_follows (env : Env) (args : ClaimArgs) (aging : Option ℤ)
    (saturated : String → Bool) :
    Follows env args (ordinary env aging) saturated (pickOrdinary env args aging saturated) := by
  intro scan scan' core candidate run
  have all (id : Uuid) (j : Job) : ((claimable env core args j.toJobRow &&
      j.continuationPolicyHash.isNone && scan.admits saturated id j.toJobRow &&
      args.jobId.all (· = id)) && !env.locked id) =
        (eligible env args (ordinary env aging) saturated scan core id j && true) := by
    simp only [eligible, ordinary, Bool.and_true]
  simp only [pickOrdinary, seq_eq_ok] at run
  obtain ⟨preferred, prefer, run⟩ := run
  by_cases preferring : scan.affinity.isSome = true ∧ args.jobId.isNone = true
  · obtain ⟨key, affinity⟩ := Option.isSome_iff_exists.mp preferring.1
    have broad := Option.isNone_iff_eq_none.mp preferring.2
    rw [if_pos preferring] at prefer
    have head : preferred = (lined env args (ordinary env aging) saturated scan core
        fun j => j.affinityKey = some key).head? := firstCandidate_lined prefer fun id j => by
      simp only [eligible, ordinary, broad, affinity, Option.all_none, Bool.and_true]
      ac_rfl
    cases lines : lined env args (ordinary env aging) saturated scan core
        (fun j => j.affinityKey = some key) with
    | cons first rest =>
      rw [lines] at head
      subst head
      cases run
      refine ⟨?_, rfl⟩
      simp only [lineup, affinity, broad, lines]
      rfl
    | nil =>
      rw [lines] at head
      subst head
      obtain ⟨found, pick, finish⟩ := seq_eq_ok.mp run
      cases finish
      have forget := lineup_forget affinity broad lines
      rw [if_pos preferring.2]
      refine ⟨?_, forget⟩
      rw [← forget]
      exact firstCandidate_lined pick all
  · rw [if_neg preferring] at prefer
    cases prefer
    obtain ⟨found, pick, finish⟩ := seq_eq_ok.mp run
    cases finish
    refine ⟨(firstCandidate_lined pick all).trans ?_, ?_⟩
    · unfold lineup
      split
      · simp_all
      · rfl
    · split_ifs with broad
      · have none' : scan.affinity = none := by simpa [broad] using preferring
        rw [show { scan with affinity := none } = scan by rw [← none']]
      · rfl

/-- The policies that a worker with these hashes supports. -/
def policiesOf (hashes : List String) : List (Option String) := none :: hashes.map some

theorem mem_policiesOf {hashes : List String} {hash : Option String} :
    hash ∈ policiesOf hashes ↔ hash.all hashes.contains = true := by
  cases hash <;> simp [policiesOf]

/-- Merging the first rows of every policy finds the first row of all. -/
theorem frontier_head {policies : List (Option String)} {batch : ℤ} (positive : 0 < batch)
    (p : Uuid → JobRow → Bool) (core : Core) :
    frontier env policies batch p core =
      (core.jobs.selectBy (fun id j => p id j.toJobRow && decide (j.continuationPolicyHash ∈ policies) &&
        !env.locked id) (claimLe fun j => j.priority)).head? := by
  have order := claimLe_order fun j : JobRow => j.priority
  have some' : 0 < batch.toNat := Int.pos_iff_toNat_pos.mp positive
  set own := fun hash : Option String => core.jobs.selectBy (fun id j => p id j.toJobRow ∧
    j.continuationPolicyHash = hash ∧ ¬env.locked id) (claimLe fun j => j.priority) with ownDef
  set line := core.jobs.selectBy (fun id j => p id j.toJobRow &&
    decide (j.continuationPolicyHash ∈ policies) && !env.locked id) (claimLe fun j => j.priority)
  set rows := policies.flatMap fun hash => (own hash).take batch.toNat
  have parts (e : Uuid × Job) : e ∈ line ↔ e.2.continuationPolicyHash ∈ policies ∧
      e ∈ own e.2.continuationPolicyHash := by
    obtain ⟨id, j⟩ := e
    simp only [line, own, Table.mem_selectBy, Bool.and_eq_true, decide_eq_true_eq, Bool.not_eq_true']
    simp only [Bool.not_eq_true]
    tauto
  have owned {e : Uuid × Job} {hash : Option String} (member : e ∈ own hash) :
      e.2.continuationPolicyHash = hash := by
    have good := (Table.mem_selectBy.mp (show (e.1, e.2) ∈ own hash from member)).2
    simp only [decide_eq_true_eq] at good
    exact good.2.1
  have inside : ∀ e ∈ rows, e ∈ line := by
    intro e member
    obtain ⟨hash, known, taken⟩ := List.mem_flatMap.mp member
    have here := List.mem_of_mem_take taken
    exact (parts e).mpr ⟨(owned here).symm ▸ known, (owned here).symm ▸ here⟩
  have leader {hash : Option String} (known : hash ∈ policies) {e : Uuid × Job}
      (first : (own hash).head? = some e) : e ∈ rows := by
    refine List.mem_flatMap.mpr ⟨hash, known, ?_⟩
    cases lines : own hash with
    | nil => simp [lines] at first
    | cons other others =>
      obtain ⟨n, many⟩ := Nat.exists_eq_succ_of_ne_zero some'.ne'
      simp_all
  have total : Std.Total fun a b : Uuid × Job => claimLe (fun j => j.priority) a b = true := ⟨order.total⟩
  have trans : IsTrans (Uuid × Job) fun a b => claimLe (fun j => j.priority) a b = true := ⟨order.trans⟩
  have stored : ∀ id j, (id, j) ∈ line → core.jobs.get? id = some j := fun id j member =>
    (Table.mem_selectBy.mp member).1
  have arranged := List.pairwise_insertionSort
    (fun a b : Uuid × Job => claimLe (fun j => j.priority) a b = true) rows
  change (rows.insertionSort fun a b => claimLe (fun j => j.priority) a b).head? = line.head?
  ext e
  rw [Table.head_least order arranged fun id j member => stored id j (inside _ (by simpa using member)),
    Table.selectBy_head order]
  simp only [List.mem_insertionSort]
  constructor
  · rintro ⟨member, least⟩
    refine ⟨inside e member, fun e' member' => ?_⟩
    obtain ⟨known, here⟩ := (parts e').mp member'
    obtain ⟨first, head⟩ := Option.ne_none_iff_exists'.mp
      (fun none' => by simp [List.head?_eq_none_iff.mp none'] at here :
        (own e'.2.continuationPolicyHash).head? ≠ none)
    exact order.trans _ _ _ (least first (leader known head)) (((Table.selectBy_head order).mp head).2 e' here)
  · rintro ⟨member, least⟩
    obtain ⟨known, here⟩ := (parts e).mp member
    refine ⟨leader known ((Table.selectBy_head order).mpr ⟨here, fun e' member' => ?_⟩),
      fun e' member' => least e' (inside e' member')⟩
    exact least e' ((parts e').mpr ⟨(owned member').symm ▸ known, (owned member').symm ▸ member'⟩)

theorem pickWithPolicies_follows {hashes : List String} {batch : ℤ} (positive : 0 < batch)
    (broad : args.jobId = none) :
    Follows env args (policied hashes) saturated fun scan core =>
      .ok (pickWithPolicies env args hashes batch saturated scan core) := by
  intro scan scan' core candidate run
  have line (p : Job → Bool) (q : Uuid → JobRow → Bool)
      (same : ∀ id (j : Job), (q id j.toJobRow &&
        decide (j.continuationPolicyHash ∈ policiesOf hashes) && !env.locked id) =
          (eligible env args (policied hashes) saturated scan core id j && p j)) :
      frontier env (policiesOf hashes) batch q core =
        (lined env args (policied hashes) saturated scan core p).head? := by
    rw [frontier_head positive]
    refine congrArg List.head? (Table.selectBy_congr (claimLe_order _) fun id j => ?_)
    rw [same]
  have all (id : Uuid) (j : Job) : ((claimable env core args j.toJobRow &&
      scan.admits saturated id j.toJobRow) && decide (j.continuationPolicyHash ∈ policiesOf hashes) &&
      !env.locked id) = (eligible env args (policied hashes) saturated scan core id j && true) := by
    simp only [eligible, policied, broad, Option.all_none, Bool.and_true, mem_policiesOf,
      Bool.decide_eq_true]
    ac_rfl
  have run := Except.ok.inj run
  simp only [pickWithPolicies, broad] at run
  cases affinity : scan.affinity with
  | none =>
    simp only [affinity, Option.isSome_none, Bool.false_eq_true, if_false, Prod.mk.injEq] at run
    obtain ⟨rfl, rfl⟩ := run
    rw [show { scan with affinity := none } = scan by rw [← affinity]]
    refine ⟨(line (fun _ => true) _ all).trans ?_, rfl⟩
    simp only [lineup, affinity]
  | some key =>
    simp only [affinity, Option.isSome_some, if_true] at run
    rw [show (none :: hashes.map some) = policiesOf hashes from rfl,
      line (fun j => j.affinityKey = some key) _ fun id j => by
        rw [← Bool.and_true (eligible _ _ _ _ _ _ _ _), ← all]
        ac_rfl] at run
    cases lines : lined env args (policied hashes) saturated scan core
        (fun j => j.affinityKey = some key) with
    | cons first rest =>
      rw [lines] at run
      cases run
      refine ⟨?_, rfl⟩
      simp only [lineup, affinity, broad, lines]
      rfl
    | nil =>
      rw [lines] at run
      cases run
      have forget := lineup_forget affinity broad lines
      refine ⟨?_, forget⟩
      rw [← forget]
      exact line (fun _ => true) _ all

end Picks

end Taskq
