import Taskq.Invariants.Memberships

/-! The keys of continuations: they name their parent and their step, and a job has one only after its parent has
succeeded. -/
namespace Taskq
open Relational

section Text

/-- The digits of the text form, least significant first. -/
def Uuid.hexChars (u : Uuid) : List Char :=
  (Nat.digits 16 u).map Nat.digitChar ++ List.replicate (32 - (Nat.digits 16 u).length) '0'

theorem Uuid.mem_hexChars {u : Uuid} {c : Char} (member : c ∈ u.hexChars) : c ≠ '-' ∧ c ≠ ':' := by
  obtain digit | zero := List.mem_append.mp member
  · obtain ⟨d, there, rfl⟩ := List.mem_map.mp digit
    have all : ∀ d < 16, Nat.digitChar d ≠ '-' ∧ Nat.digitChar d ≠ ':' := by decide
    exact all d (Nat.digits_lt_base (by decide) there)
  · rw [List.eq_of_mem_replicate zero]
    decide

/-- The value of a hexadecimal digit. -/
def hexValue (c : Char) : ℕ := if c.toNat < 58 then c.toNat - 48 else c.toNat - 87

theorem Uuid.hexChars_value (u : Uuid) : Nat.ofDigits 16 (u.hexChars.map hexValue) = u := by
  have digits : (Nat.digits 16 u).map (hexValue ∘ Nat.digitChar) = Nat.digits 16 u := by
    refine (List.map_congr_left fun d there => ?_).trans (List.map_id _)
    have all : ∀ d < 16, hexValue (Nat.digitChar d) = d := by decide
    exact all d (Nat.digits_lt_base (by decide) there)
  rw [Uuid.hexChars, List.map_append, List.map_map, digits, List.map_replicate, Nat.ofDigits_append]
  simp [show hexValue '0' = 0 from rfl, Nat.ofDigits_replicate_zero, Nat.ofDigits_digits]

theorem Uuid.reversedChars_filter (u : Uuid) : (Uuid.reversedChars u).filter (· ≠ '-') = u.hexChars := by
  have plain (l : List Char) (part : l ⊆ u.hexChars) : l.filter (· ≠ '-') = l :=
    List.filter_eq_self.mpr fun c member => decide_eq_true (Uuid.mem_hexChars (part member)).1
  have taken (m n : ℕ) : ((u.hexChars.drop m).take n) ⊆ u.hexChars :=
    ((List.take_sublist n _).trans (List.drop_sublist m _)).subset
  have split (m n : ℕ) : (u.hexChars.drop m).take n ++ u.hexChars.drop (m + n) = u.hexChars.drop m := by
    rw [← List.drop_drop, List.take_append_drop]
  have whole : Uuid.reversedChars u = u.hexChars.take 12 ++ '-' :: (u.hexChars.drop 12).take 4 ++
      '-' :: (u.hexChars.drop 16).take 4 ++ '-' :: (u.hexChars.drop 20).take 4 ++ '-' :: u.hexChars.drop 24 := by
    simp only [Uuid.reversedChars, Uuid.hexChars, List.length_map]
  rw [whole]
  simp only [List.filter_append, List.filter_cons, ne_eq, not_true_eq_false, decide_false, Bool.false_eq_true,
    if_false]
  simp only [← ne_eq]
  rw [plain _ (List.take_subset 12 _), plain _ (taken 12 4), plain _ (taken 16 4), plain _ (taken 20 4),
    plain _ (List.drop_subset 24 _)]
  simp only [List.append_assoc, split 20 4, split 16 4, split 12 4, List.take_append_drop]

/-- Different identifiers have different texts. -/
theorem Uuid.text_inj {u v : Uuid} (same : Uuid.text u = Uuid.text v) : u = v := by
  have chars : (Uuid.reversedChars u).filter (· ≠ '-') = (Uuid.reversedChars v).filter (· ≠ '-') := by
    have reversed := congrArg (fun s : String => s.toList.reverse) same
    simp only [Uuid.text, String.toList_ofList, List.reverse_reverse] at reversed
    rw [reversed]
  rw [Uuid.reversedChars_filter, Uuid.reversedChars_filter] at chars
  rw [← Uuid.hexChars_value u, chars, Uuid.hexChars_value]

theorem Uuid.text_colon (u : Uuid) : ':' ∉ (Uuid.text u).toList := by
  intro member
  simp only [Uuid.text, String.toList_ofList, List.mem_reverse] at member
  have there : ':' ∈ u.hexChars := by
    rw [← Uuid.reversedChars_filter]
    exact List.mem_filter.mpr ⟨member, rfl⟩
  exact (Uuid.mem_hexChars there).2 rfl

theorem append_cons_inj {α : Type} {x : α} {l m l' m' : List α} (outside : x ∉ l) (outside' : x ∉ l')
    (same : l ++ x :: m = l' ++ x :: m') : l = l' ∧ m = m' := by
  induction l generalizing l' with
  | nil =>
    cases l' with
    | nil => exact ⟨rfl, (List.cons.inj same).2⟩
    | cons y l' => exact absurd (by simp [(List.cons.inj same).1]) outside'
  | cons y l ih =>
    cases l' with
    | nil => exact absurd (by simp [(List.cons.inj same).1]) outside
    | cons z l' =>
      obtain ⟨rfl, rest⟩ := List.cons.inj same
      obtain ⟨rfl, tail⟩ := ih (fun h => outside (by simp [h])) (fun h => outside' (by simp [h])) rest
      exact ⟨rfl, tail⟩

/-- The key of a continuation shows its parent and its step. -/
theorem chainPrefix_inj {p q : Uuid} {step step' : String} (same : chainPrefix p ++ step = chainPrefix q ++ step') :
    p = q ∧ step = step' := by
  have chars := congrArg String.toList same
  simp only [chainPrefix, String.toList_append, List.append_assoc] at chars
  have rest := List.append_cancel_left chars
  obtain ⟨texts, steps⟩ := append_cons_inj (Uuid.text_colon p) (Uuid.text_colon q) rest
  exact ⟨Uuid.text_inj (String.ext texts), String.ext steps⟩

theorem chainPrefix_reserved (p : Uuid) (step : String) : engineReserved (some (chainPrefix p ++ step)) = true := by
  simp only [engineReserved, Option.any_some, hasPrefix, List.isPrefixOf_iff_prefix, chainPrefix, String.toList_append,
    List.append_assoc]
  exact List.prefix_append _ _

end Text

section Settled

variable {site : Site} {allowed : System → Env → Command → Prop} {s : System} {env : Env} {db db' : Db}
  {command : Command} {S : Set Label} {c d : Core} {l : Label} {id n : Uuid}

/-- A job whose key is that of a continuation has a parent from before `n`, and the parent has succeeded if it is still
stored. -/
def ChainsSettled (n : Uuid) (c : Core) : Prop :=
  ∀ id job parent step, c.jobs.get? id = some job → job.idempotencyKey = some (chainPrefix parent ++ step) →
    parent < n ∧ ∀ row, c.jobs.get? parent = some row → row.status = .succeeded

/-- A job that has succeeded stays so. -/
theorem Life.Step.succeeded_stays {max : ℤ} {k : Change} {l l' : Life} (step : Life.Step max k l l')
    (ended : l.status = .succeeded) : l'.status = .succeeded := by
  cases step with
  | adjust | link => exact ended
  | succeed => rfl
  | withdraw _ _ _ idle => obtain idle | idle | ⟨idle, -⟩ := idle <;> cases ended.symm.trans idle
  | start _ _ idle | promote _ idle | redrive _ idle | beat _ idle | retry _ idle | bury _ _ idle | snooze _ idle
    | release _ idle | cancelRunning _ _ idle | expireRetry _ idle | expireBury _ idle | expireCancel _ idle
    | requestCancel _ idle => cases ended.symm.trans idle

theorem ChainsSettled.write {old job : Job} {m : Table Uuid MemberCounts} {k : Change} (chains : ChainsSettled n c)
    (row : RowWrite c id old job m) (step : Life.Step old.maxAttempts k old.life job.life)
    (jobs : d.jobs = c.jobs.put id job) : ChainsSettled n d := by
  have was {j : Uuid} {job' : Job} (here : d.jobs.get? j = some job') : ∃ before, c.jobs.get? j = some before ∧
      job'.identity = before.identity ∧ (before.status = .succeeded → job'.status = .succeeded) := by
    rw [jobs, Table.get?_put] at here
    split_ifs at here with own
    · cases here
      exact ⟨old, own ▸ row.stored, row.kept, step.succeeded_stays⟩
    · exact ⟨job', here, rfl, fun h => h⟩
  intro other job' parent name here keyed
  obtain ⟨before, there, kept, -⟩ := was here
  have key : job'.idempotencyKey = before.idempotencyKey := congrArg Identity.idempotencyKey kept
  obtain ⟨below, settled⟩ := chains other before parent name there (key ▸ keyed)
  refine ⟨below, fun row here => ?_⟩
  obtain ⟨before, there, -, stays⟩ := was here
  exact stays (settled before there)

theorem ChainsSettled.step (chains : ChainsSettled n c) (h : Transition l c d)
    (enters : ∀ id parent, l = .enter id parent → n ≤ id ∧ ∀ p, parent = some p → p < n) : ChainsSettled n d := by
  cases h with
  | mint | dropEdge | reserve | createWorkflow | changeWorkflow => exact chains
  | start row step => exact chains.write row step rfl
  | change _ row step => exact chains.write row step rfl
  | promote _ row step => exact chains.write row step rfl
  | @delete _ id =>
    have kept {j : Uuid} {job : Job} (here : (c.jobs.remove id).get? j = some job) : c.jobs.get? j = some job := by
      rw [Table.get?_remove] at here
      split_ifs at here
      exact here
    intro other job parent name here keyed
    obtain ⟨below, settled⟩ := chains other job parent name (kept here) keyed
    exact ⟨below, fun row there => settled row (kept there)⟩
  | @enter _ id new who _ _ fresh _ _ _ entry =>
    obtain ⟨above, older⟩ := enters id who rfl
    intro other job parent name here keyed
    have own : parent < n ∧ ∀ row, c.jobs.get? parent = some row → row.status = .succeeded := by
      simp only [Table.get?_put] at here
      split_ifs at here
      · cases here
        cases entry with
        | producer key =>
          rw [keyed, chainPrefix_reserved] at key
          cases key
        | continuation stored succeeded _ _ key =>
          obtain ⟨rfl, -⟩ := chainPrefix_inj (Option.some.inj (keyed.symm.trans key))
          refine ⟨older parent rfl, fun row there => ?_⟩
          cases stored.symm.trans there
          exact succeeded
      · exact chains other job parent name here keyed
    refine ⟨own.1, fun row there => own.2 row ?_⟩
    simp only [Table.get?_put] at there
    split_ifs at there with same
    · exact absurd (same ▸ own.1) (Nat.not_lt.mpr above)
    · exact there

theorem ChainsSettled.mono (chains : ChainsSettled n c) {n' : Uuid} (later : n ≤ n') : ChainsSettled n' c :=
  fun id job parent step here keyed => (chains id job parent step here keyed).imp_left fun below => below.trans_le later

theorem Command.exec_chains (run : command.exec env db = .ok db') (minted : Minted db.toCore)
    (chains : ChainsSettled db.nextUuid db.toCore) : ChainsSettled db'.nextUuid db'.toCore := by
  obtain ⟨F, used, steps⟩ := Command.exec_steps run
  have settles (older : ∀ p, command.completes = some p → p < db.nextUuid) : ChainsSettled db'.nextUuid db'.toCore := by
    refine ChainsSettled.mono (n := db.nextUuid) ?_ steps.nextUuid_le
    refine steps.invariant (I := ChainsSettled db.nextUuid) (fun {l c d} member h before => ?_) chains
    refine before.step h fun id parent label => ?_
    subst label
    refine ⟨Command.footprints_enter used member, fun p is => older p ?_⟩
    exact (Command.footprints_parent used member).1.symm.trans is
  cases completes : command.completes with
  | none => exact settles fun p is => by cases completes.symm.trans is
  | some p =>
    obtain rfl | ⟨job, stored, -⟩ := Command.exec_completes run completes
    · exact chains
    · refine settles fun q is => ?_
      cases completes.symm.trans is
      exact minted.jobs p (by simp [stored])

theorem System.Reachable.chains (reachable : System.Reachable site allowed s) :
    ChainsSettled s.db.nextUuid s.db.toCore := by
  refine (reachable.induction (I := fun s => Minted s.db.toCore ∧ ChainsSettled s.db.nextUuid s.db.toCore)
    (fun now => ⟨(Sound.installed site now).minted, fun _ _ _ _ here => (by cases here)⟩)
    fun {t u env command} ih _ next => ?_).2
  obtain ⟨F, -, steps⟩ := next.steps
  exact ⟨steps.invariant (fun _ h minted => minted.step h) ih.1, Command.exec_chains next.exec ih.1 ih.2⟩

end Settled

end Taskq
