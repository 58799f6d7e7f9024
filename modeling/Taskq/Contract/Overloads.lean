import Taskq.Claiming.Gates
import Taskq.Claiming.Total

/-! The two claim overloads. Without policies to support they agree on every queue that does not age; with policies
the second takes the ready jobs of all of them in one order. -/
namespace Taskq
open Relational

section Calls

/-- Both calls return the same, or both raise under the same code. -/
def AgreeOn {α : Type} : Call α → Call α → Prop
  | .ok a, .ok b => a = b
  | .error e, .error e' => e.state = e'.state
  | _, _ => False

theorem AgreeOn.refl {α : Type} (call : Call α) : AgreeOn call call := by
  cases call <;> exact rfl

end Calls

section Scans

variable {env : Env} {args : ClaimArgs} {batch : ℤ} {saturated : String → Bool} {scan : Scan} {core : Core}

/-- A scan in the order of the whole queue finds what the frontier of the jobs without a policy finds. -/
theorem firstCandidate_frontier (positive : 0 < batch) {p q : Uuid → JobRow → Bool}
    (same : ∀ id j, q id j = (p id j && j.continuationPolicyHash.isNone)) :
    firstCandidate env none q core = .ok (frontier env [none] batch p core) := by
  have line : core.jobs.selectBy (fun id j => q id j.toJobRow && !env.locked id) (claimLe (effectivePriority env none)) =
      core.jobs.selectBy (fun id j => p id j.toJobRow && decide (j.continuationPolicyHash ∈ [none]) && !env.locked id)
        (claimLe fun j => j.priority) := by
    refine Table.selectBy_congr (claimLe_order _) fun id j => ?_
    simp only [same, List.mem_singleton, Bool.and_eq_true, decide_eq_true_eq, Option.isNone_iff_eq_none]
  rw [frontier_head positive, ← line, ← Table.filter_selectBy (claimLe_order _) core.jobs _ fun id _ => !env.locked id,
    List.head?_filter]
  rfl

/-- Without a job to claim the overloads scan alike. -/
theorem pickOrdinary_eq (positive : 0 < batch) (broad : args.jobId = none) :
    pickOrdinary env args none saturated scan core = .ok (pickWithPolicies env args [] batch saturated scan core) := by
  have first (p : Uuid → JobRow → Bool) (q : Uuid → JobRow → Bool)
      (same : ∀ id j, q id j = (p id j && j.continuationPolicyHash.isNone)) :
      firstCandidate env none q core = .ok (frontier env [none] batch p core) := firstCandidate_frontier positive same
  have all := first (fun id j => claimable env core args j && scan.admits saturated id j)
    (fun id j => claimable env core args j && j.continuationPolicyHash.isNone && scan.admits saturated id j && true)
    fun id j => by rw [Bool.and_true, Bool.and_right_comm]
  have affine := first (fun id j => claimable env core args j && scan.admits saturated id j && j.affinityKey = scan.affinity)
    (fun id j => claimable env core args j && j.continuationPolicyHash.isNone && scan.admits saturated id j &&
      j.affinityKey = scan.affinity)
    fun id j => by ac_rfl
  unfold pickOrdinary pickWithPolicies
  rw [broad]
  dsimp only [List.map_nil, Option.all_none, Option.isNone_none]
  rw [all, affine]
  cases scan.affinity with
  | none => rfl
  | some key =>
    simp only [Option.isSome_some, and_self, if_true, List.map_nil]
    generalize frontier env [none] batch (fun id j => claimable env core args j && scan.admits saturated id j &&
      decide (j.affinityKey = some key)) core = found
    cases found <;> rfl

theorem ordinary_none (env : Env) : ordinary env none = policied [] := by
  unfold ordinary policied
  congr 1

end Scans

section Targeted

variable {env : Env} {args : ClaimArgs} {batch : ℤ} {saturated : String → Bool} {affinity : Option String} {db : Db}
  {id : Uuid} {job : Job} {scans : ℕ} {scan : Scan}

/-- A key that refuses goes on to refuse, and leaves nothing new. -/
theorem flowKeyAdmit_again {key : String} (refused : (flowKeyAdmit env key db).1 = false) :
    flowKeyAdmit env key (flowKeyAdmit env key db).2 = (false, (flowKeyAdmit env key db).2) := by
  unfold flowKeyAdmit at refused ⊢
  cases limited : db.flowLimits.get? key with
  | none => simp [limited] at refused
  | some limit =>
    simp only [limited] at refused ⊢
    by_cases free : env.tryLock ("taskq.fk:" ++ key) = true
    · rw [if_neg (not_not.mpr free)] at refused ⊢
      split_ifs at refused ⊢ with dry
      simp only [limited, Table.get?_put_self, Option.getD_some, Table.put_put]
      rw [if_pos dry]
    · rw [if_pos free]
      simp only [limited, if_pos free]

theorem admitCandidate_again {row : JobRow} (refused : (admitCandidate env row db).1 = false) :
    admitCandidate env row (admitCandidate env row db).2 = (false, (admitCandidate env row db).2) := by
  unfold admitCandidate at refused ⊢
  dsimp only at refused ⊢
  by_cases free : (row.concurrencyKey.all fun key =>
      env.tryLock ("taskq.ck:" ++ key) && runningWithKey db.toCore key < concurrencyCap db key) = true
  · rw [if_neg (not_not.mpr free)] at refused ⊢
    cases flow : row.flowKey with
    | none => simp [flow] at refused
    | some key =>
      simp only [flow] at refused ⊢
      obtain ⟨keys, frame⟩ := flowKeyAdmit_frame env key db
      have again := flowKeyAdmit_again refused
      rw [frame] at again ⊢
      exact (if_neg (not_not.mpr free)).trans again
  · rw [if_pos free]
    simp only [if_pos free]

/-- The overload with policies tries a refused job to the end. -/
theorem claimLoop_refused (named : args.jobId = some id) (found : target env args [] db.toCore id = some job)
    (refused : admitCandidate env job.toJobRow db = (false, db)) :
    claimLoop env args (fun scan core => .ok (pickWithPolicies env args [] batch saturated scan core)) scans 1 scan db =
      .ok ([], db) := by
  induction scans generalizing scan with
  | zero => rfl
  | succ scans ih =>
    unfold claimLoop
    rw [if_neg (by decide), pickWithPolicies_target named, found]
    simpa [refused, bind, Except.bind] using ih

/-- What the overload without policies finds for a named job. -/
theorem pickOrdinary_target (named : args.jobId = some id) (core : Core) :
    pickOrdinary env args none saturated ⟨[], affinity⟩ core = .ok
      (((target env args [] core id).filter fun j => !j.concurrencyKey.any saturated).map fun j => (id, j),
        ⟨[], affinity⟩) := by
  have calm : Calm env args (pickOrdinary env args none saturated) core :=
    pickOrdinary_calm fun id job _ _ => rfl
  obtain ⟨⟨candidate, scan'⟩, run⟩ := calm ⟨[], affinity⟩ core fun _ _ stored good => ⟨stored, good⟩
  obtain ⟨first, -⟩ := pickOrdinary_follows env args none saturated run
  rw [ordinary_none, lineup_target named] at first
  have same : scan' = ⟨[], affinity⟩ := by
    unfold pickOrdinary at run
    rw [named] at run
    obtain ⟨preferred, prefer, run⟩ := seq_eq_ok.mp run
    rw [if_neg (by simp)] at prefer
    cases prefer
    obtain ⟨job, -, run⟩ := seq_eq_ok.mp run
    cases run
    rfl
  rw [run, first, same]
  cases Option.filter _ (target env args [] core id) <;> rfl

/-- Once it is skipped the overload without policies does not find it again. -/
theorem pickOrdinary_skipped (named : args.jobId = some id) (core : Core) :
    ∃ scan', pickOrdinary env args none saturated ⟨[id], affinity⟩ core = .ok (none, scan') := by
  have calm : Calm env args (pickOrdinary env args none saturated) core :=
    pickOrdinary_calm fun id job _ _ => rfl
  obtain ⟨⟨candidate, scan'⟩, run⟩ := calm ⟨[id], affinity⟩ core fun _ _ stored good => ⟨stored, good⟩
  obtain ⟨first, -⟩ := pickOrdinary_follows env args none saturated run
  have nobody : lineup env args (ordinary env none) saturated ⟨[id], affinity⟩ core = [] := by
    refine List.eq_nil_iff_forall_not_mem.mpr fun e member => ?_
    obtain ⟨-, good⟩ := mem_lineup.mp member
    simp [eligible, Scan.admits, named] at good
    grind
  rw [nobody] at first
  cases first
  exact ⟨scan', run⟩

/-- A job whose key was saturated at the start is refused, and nothing is left behind. -/
theorem admitCandidate_full {row : JobRow} (full : row.concurrencyKey.any (saturatedKey db) = true) :
    admitCandidate env row db = (false, db) := by
  obtain ⟨key, own, full⟩ := (Option.any_eq_true _ _).mp full
  simp only [saturatedKey, Bool.and_eq_true, decide_eq_true_eq] at full
  unfold admitCandidate
  dsimp only
  rw [own]
  exact if_pos (by simp [full])

/-- For a named job the two loops do the same. -/
theorem claimLoop_target_eq (named : args.jobId = some id) (scans : ℕ) :
    claimLoop env args (pickOrdinary env args none (saturatedKey db)) scans 1 ⟨[], affinity⟩ db =
      claimLoop env args (fun scan core => .ok (pickWithPolicies env args [] batch (saturatedKey db) scan core))
        scans 1 ⟨[], affinity⟩ db := by
  cases scans with
  | zero => rfl
  | succ scans =>
    cases found : target env args [] db.toCore id with
    | none =>
      unfold claimLoop
      rw [if_neg (by decide), if_neg (by decide), pickOrdinary_target named, pickWithPolicies_target named, found]
      rfl
    | some job =>
      by_cases full : job.concurrencyKey.any (saturatedKey db) = true
      · rw [claimLoop_refused named found (admitCandidate_full full)]
        unfold claimLoop
        rw [if_neg (by decide), pickOrdinary_target named, found, Option.filter_some, if_neg (by simp [full])]
        rfl
      · unfold claimLoop
        rw [if_neg (by decide), if_neg (by decide), pickOrdinary_target named, pickWithPolicies_target named, found,
          Option.filter_some, if_pos (by simp [full])]
        dsimp only [Option.map_some, bind, Except.bind]
        split_ifs with admitted
        · congr 1
          funext started
          cases scans <;> rfl
        · have refused := eq_false_of_ne_true admitted
          have aside : (admitCandidate env job.toJobRow db).2.toCore = db.toCore := (admitCandidate_aside env job.toJobRow db).1
          rw [claimLoop_refused named (aside ▸ found) (admitCandidate_again refused)]
          cases scans with
          | zero => rfl
          | succ scans =>
            unfold claimLoop
            obtain ⟨scan', missed⟩ : ∃ scan', pickOrdinary env args none (saturatedKey db) ⟨[id], affinity⟩
                (admitCandidate env job.toJobRow db).2.toCore = .ok (none, scan') := pickOrdinary_skipped named _
            rw [if_neg (by decide)]
            exact congrArg (· >>= _) missed

end Targeted

section Overloads

variable {env : Env} {args : ClaimArgs} {db : Db}

/-- Both overloads run the same loop on a queue that does not age. -/
theorem runClaim_eq {n : ℤ} (positive : 1 ≤ n) (one : args.jobId.isSome → n = 1) :
    runClaim env args (pickOrdinary env args none (saturatedKey db)) n db =
      runClaim env args (fun scan core => .ok (pickWithPolicies env args [] n (saturatedKey db) scan core)) n db := by
  unfold runClaim
  cases named : args.jobId with
  | none =>
    have same : pickOrdinary env args none (saturatedKey db) =
        fun scan core => .ok (pickWithPolicies env args [] n (saturatedKey db) scan core) := by
      funext scan core
      exact pickOrdinary_eq positive named
    rw [same]
  | some id =>
    rw [one (by simp [named]), claimLoop_target_eq named]

theorem claimBody_eq (asked : 1 ≤ (if args.jobId.isSome then 1 else args.batch.getD 1))
    (young : (db.queueFlow.get? args.queue).bind (·.priorityAgingSeconds) = none) :
    claimBody env args db (fun _ db =>
        pickOrdinary env args ((db.queueFlow.get? args.queue).bind (·.priorityAgingSeconds)) (saturatedKey db)) =
      claimBody env args db fun batch db scan core =>
        .ok (pickWithPolicies env args [] batch (saturatedKey db) scan core) := by
  unfold claimBody
  dsimp only
  generalize wants : (if args.jobId.isSome = true then (1 : ℤ) else args.batch.getD 1) = batch at asked ⊢
  cases db.queues.get? args.queue with
  | none => rfl
  | some q =>
    dsimp only
    split_ifs with stopped
    · rfl
    · refine bind_congr_ok fun gated grant => ?_
      obtain ⟨gate, granted⟩ := gated
      cases gate with
      | error throttled => rfl
      | ok n =>
        have grant : queueGate env (ClaimCall.mk args none).args q batch db = .ok (.ok n, granted) := grant
        obtain ⟨low, high⟩ := queueGate_grant asked grant
        have still : (granted.queueFlow.get? args.queue).bind (·.priorityAgingSeconds) = none :=
          (queueGate_unseen grant).aging.trans young
        have one : args.jobId.isSome = true → n = 1 := fun named => by
          rw [if_pos named] at wants
          omega
        dsimp only
        rw [still]
        exact runClaim_eq low one

/-- Behind the breaker both bodies do the same, or reject the same arguments. -/
theorem claimBodies_agree (young : (db.queueFlow.get? args.queue).bind (·.priorityAgingSeconds) = none) :
    AgreeOn (claimJobsUnattested env args db) (claimJobsWithPoliciesUnattested env args [] db) := by
  have checked {p : Prop} [Decidable p] {e : SqlError} {α : Type} (rest : Call α) :
      (ensure p e >>= fun _ => rest) = if p then rest else .error e := by
    unfold ensure
    split_ifs <;> rfl
  unfold claimJobsUnattested claimJobsWithPoliciesUnattested
  simp only [checked]
  by_cases valid : (ClaimCall.mk args none).Valid
  · have same : claimBody env args db _ = _ := claimBody_eq (ClaimCall.batch_pos valid) young
    obtain ⟨worker, batch, lease, types, affinity, -⟩ := valid
    rw [if_pos worker, if_pos batch, if_pos lease, if_pos types, if_pos affinity, if_pos ⟨worker, batch⟩,
      if_pos ⟨lease, types, affinity⟩, if_pos (by simp), same]
    exact .refl _
  · simp only [ClaimCall.Valid, Option.all_none, and_true] at valid
    split_ifs with worker batch lease types affinity
    all_goals first | exact rfl | (exfalso; tauto)

/-- The overloads agree on a queue that does not age. -/
theorem claimJobs_agree (young : (db.queueFlow.get? args.queue).bind (·.priorityAgingSeconds) = none) :
    AgreeOn (claimJobs env args db) (claimJobsWithPolicies env args [] db) := by
  unfold claimJobs claimJobsWithPolicies gatedClaim
  cases attested : env.attested with
  | false => exact rfl
  | true =>
    cases gate : breakerGate env args.queue db with
    | error e => exact rfl
    | ok r =>
      obtain ⟨retry, gated⟩ := r
      cases retry with
      | some n => exact rfl
      | none =>
        have same : AgreeOn (claimJobsUnattested env args gated) (claimJobsWithPoliciesUnattested env args [] gated) :=
          claimBodies_agree ((breakerGate_unseen gate).aging.trans young)
        simpa [ensure, bind, Except.bind] using same

end Overloads

section Order

variable {env : Env} {args : ClaimArgs} {hashes : List String} {saturated : String → Bool} {core : Core}

/-- The ready jobs of a claim whose policy is absent or listed, by priority, time and id; without a named job those
with the affinity of the claim go first. -/
def globalOrder (env : Env) (args : ClaimArgs) (hashes : List String) (core : Core) : List (Uuid × Job) :=
  let ready := core.jobs.selectBy (fun id j => claimable env core args j.toJobRow &&
    j.continuationPolicyHash.all hashes.contains && args.jobId.all (· = id)) (claimLe fun j => j.priority)
  match args.affinityKey, args.jobId with
  | some key, none => ready.filter (fun e => e.2.affinityKey = some key) ++ ready.filter fun e => e.2.affinityKey ≠ some key
  | _, _ => ready

/-- A claim meets its candidates in the global order, without those whose key is saturated. -/
theorem lineup_globalOrder (alone : ∀ id, env.locked id = false) :
    lineup env args (policied hashes) saturated ⟨[], args.affinityKey⟩ core =
      (globalOrder env args hashes core).filter fun e => !e.2.concurrencyKey.any saturated := by
  have line (p : Job → Bool) : lined env args (policied hashes) saturated ⟨[], args.affinityKey⟩ core p =
      ((core.jobs.selectBy (fun id j => claimable env core args j.toJobRow &&
        j.continuationPolicyHash.all hashes.contains && args.jobId.all (· = id)) (claimLe fun j => j.priority)).filter
          fun e => p e.2).filter fun e => !e.2.concurrencyKey.any saturated := by
    rw [Table.filter_selectBy (claimLe_order _) core.jobs _ fun _ j => p j,
      Table.filter_selectBy (claimLe_order _) core.jobs _ fun _ j => !j.concurrencyKey.any saturated]
    refine Table.selectBy_congr (claimLe_order _) fun id j => ?_
    simp [eligible, Scan.admits, policied, alone]
    grind
  unfold lineup globalOrder
  dsimp only
  generalize args.affinityKey = affinity at line ⊢
  generalize args.jobId = named at line ⊢
  cases affinity with
  | none => rw [line, List.filter_true]
  | some key =>
    cases named with
    | none =>
      dsimp only
      rw [line, line, List.filter_append]
    | some id => rw [line, List.filter_true]

/-- Jobs without keys are served as they come. -/
theorem served_keyless {room : Room} {scans : ℕ} {wanted : ℤ} {candidates : List (Uuid × Job)}
    (keyless : ∀ e ∈ candidates, e.2.concurrencyKey = none ∧ e.2.flowKey = none) (enough : wanted.toNat ≤ scans) :
    served room scans wanted candidates = candidates.take wanted.toNat := by
  refine serve_all (fun e member stock => ?_) enough
  obtain ⟨slot, token⟩ := keyless e member
  simp [Room.serves, slot, token]

end Order

section Agreement

variable {site : Site} {env : Env} {args : ClaimArgs} {s : System}

/-- On a queue that does not age the overloads agree when there are no policies to support; with policies the second
claims in the global order over the ready jobs of all of them, keeping to it when jobs have keys. -/
theorem claim_overloads_agree {allowed : System → Env → Command → Prop} (reachable : System.Reachable site allowed s)
    (alone : ∀ id, env.locked id = false) :
    ((s.db.queueFlow.get? args.queue).bind (·.priorityAgingSeconds) = none →
      AgreeOn (claimJobs env args s.db) (claimJobsWithPolicies env args [] s.db)) ∧
    ∀ hashes answer db', claimJobsWithPolicies env args hashes s.db = .ok (answer, db') →
      (answer.jobs.map (·.jobId)).Sublist ((globalOrder env args hashes s.db.toCore).map Prod.fst) ∧
      ((∀ e ∈ globalOrder env args hashes s.db.toCore, e.2.concurrencyKey = none ∧ e.2.flowKey = none) →
        answer.jobs.map (·.jobId) = ((globalOrder env args hashes s.db.toCore).take
          (ClaimCall.granted env ⟨args, some hashes⟩ s.db).toNat).map Prod.fst) := by
  refine ⟨claimJobs_agree, fun hashes answer db' run => ?_⟩
  have run : (ClaimCall.mk args (some hashes)).run env s.db = .ok (answer, db') := run
  have ids := (ClaimCall.outcome run reachable.rated).serves
  have line : (ClaimCall.mk args (some hashes)).lineup env s.db =
      (globalOrder env args hashes s.db.toCore).filter fun e => !e.2.concurrencyKey.any (saturatedKey s.db) :=
    lineup_globalOrder alone
  rw [ids, ClaimCall.serves, line]
  constructor
  · exact ((serve_sublist.trans (List.take_sublist _ _)).trans List.filter_sublist).map Prod.fst
  · intro keyless
    have all : ((globalOrder env args hashes s.db.toCore).filter fun e =>
        !e.2.concurrencyKey.any (saturatedKey s.db)) = globalOrder env args hashes s.db.toCore := by
      refine List.filter_eq_self.mpr fun e member => ?_
      rw [(keyless e member).1]
      rfl
    rw [all, served_keyless keyless (by omega)]

/-- A plain job, and an urgent one after it. -/
def plainThenUrgent : List (Time × Command) := [(0, .ensureQueue (some "q") none), (0, .enqueue (.simple "q")),
  (1, .enqueue { EnqueueArgs.simple "q" with priority := some 1 })]

/-- Both overloads take the urgent job first. -/
theorem claim_overloads_agree_two : ∃ (s : System) (answer : ClaimBatch) (db' : Db),
    System.Reachable .plain anyCall s ∧
    claimJobs (.alone .plain 2 9) (.simple "q" 2) s.db = .ok (answer, db') ∧
    claimJobsWithPolicies (.alone .plain 2 9) (.simple "q" 2) [] s.db = .ok (answer, db') ∧
    answer.jobs.map (·.jobId) = (globalOrder (.alone .plain 2 9) (.simple "q" 2) [] s.db.toCore).map Prod.fst ∧
    answer.jobs.map (·.priority) = [1, 100] := by
  have played : System.plays .plain plainThenUrgent (.installed .plain 0) (fun s =>
      (claimJobs (.alone .plain 2 9) (.simple "q" 2) s.db).toOption.any fun claimed =>
        claimed.1.jobs.map (·.priority) = [1, 100] &&
          ((s.db.queueFlow.get? "q").bind (·.priorityAgingSeconds)).isNone &&
          (globalOrder (.alone .plain 2 9) (.simple "q" 2) [] s.db.toCore).all (fun e =>
            e.2.concurrencyKey.isNone && e.2.flowKey.isNone) &&
          (globalOrder (.alone .plain 2 9) (.simple "q" 2) [] s.db.toCore).length ≤
            (ClaimCall.granted (.alone .plain 2 9) ⟨.simple "q" 2, some []⟩ s.db).toNat) = true := by decide +kernel
  obtain ⟨s, run, there⟩ := System.plays_run anyCall played fun _ _ _ => trivial
  obtain ⟨⟨answer, db'⟩, claimed, there⟩ := (Option.any_eq_true _ _).mp there
  have claimed := toOption_eq_some.mp claimed
  simp only [Bool.and_eq_true, decide_eq_true_eq, Option.isNone_iff_eq_none, List.all_eq_true] at there
  obtain ⟨⟨⟨priorities, young⟩, keyless⟩, all⟩ := there
  have reachable : System.Reachable .plain anyCall s := ⟨0, run⟩
  have unlocked : ∀ id, (Env.alone .plain 2 9).locked id = false := fun _ => rfl
  obtain ⟨agree, ordered⟩ : (_ → AgreeOn (claimJobs (.alone .plain 2 9) (.simple "q" 2) s.db) _) ∧ _ :=
    claim_overloads_agree reachable unlocked
  have agree := agree young
  rw [claimed] at agree
  cases policies : claimJobsWithPolicies (.alone .plain 2 9) (.simple "q" 2) [] s.db with
  | error e =>
    rw [policies] at agree
    exact agree.elim
  | ok r =>
    rw [policies] at agree
    have same : (answer, db') = r := agree
    subst same
    have ids := (ordered [] answer db' policies).2 keyless
    rw [List.take_of_length_le all] at ids
    exact ⟨s, answer, db', reachable, claimed, policies, ids, priorities⟩

end Agreement

end Taskq
