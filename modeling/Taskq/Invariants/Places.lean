import Taskq.Invariants.Chains

/-! The places of a workflow's limit: the counter that reservations move is the number of members ever admitted. -/
namespace Taskq
open Relational

variable {c d : Core} {l : Label} {S : Set Label} {id v w : Uuid} {env : Env} {db db' db₁ : Db}

section Counts

/-- The members of a workflow that are stored. -/
def membersOf (c : Core) (w : Uuid) : ℕ := c.jobs.count fun _ j => j.workflowId = some w

/-- The places of a workflow's limit that are taken. -/
def placesOf (c : Core) (w : Uuid) : ℤ := ((c.memberCounts.get? w).bind (·.admittedTotal)).getD 0

/-- The places taken beyond the stored members. -/
def unfilled (c : Core) (w : Uuid) : ℤ := placesOf c w - membersOf c w

theorem admitted_put {t : Table Uuid MemberCounts} {counts new : MemberCounts} (stored : t.get? w = some counts)
    (same : new.admittedTotal = counts.admittedTotal) (v : Uuid) :
    ((t.put w new).get? v).bind (·.admittedTotal) = (t.get? v).bind (·.admittedTotal) := by
  rw [Table.get?_put]
  split_ifs with own
  · subst own
    simp [stored, same]
  · rfl

theorem admitted_write {workflows : Table Uuid Workflow} {old new : JobRow} {t m : Table Uuid MemberCounts}
    (counted : updateWorkflowMemberCounts workflows old new t = .ok m) (v : Uuid) :
    (m.get? v).bind (·.admittedTotal) = (t.get? v).bind (·.admittedTotal) := by
  obtain ⟨rfl, -⟩ | ⟨w, counts, -, stored, rfl⟩ := updateMemberCounts_eq_ok counted
  · rfl
  · exact admitted_put stored (by rfl) v

theorem admitted_insert {new : JobRow} {t m : Table Uuid MemberCounts}
    (counted : insertWorkflowMemberCounts new t = .ok m) (v : Uuid) :
    (m.get? v).bind (·.admittedTotal) = (t.get? v).bind (·.admittedTotal) := by
  unfold insertWorkflowMemberCounts at counted
  split at counted
  · cases counted
    rfl
  · obtain ⟨counts, stored, rfl⟩ := countEnter_eq_ok counted
    exact admitted_put stored (by rfl) v

theorem admitted_delete {workflows : Table Uuid Workflow} {old : JobRow} {t m : Table Uuid MemberCounts}
    (counted : deleteWorkflowMemberCounts workflows old t = .ok m) (v : Uuid) :
    (m.get? v).bind (·.admittedTotal) = (t.get? v).bind (·.admittedTotal) := by
  unfold deleteWorkflowMemberCounts at counted
  split at counted
  · cases counted
    rfl
  · obtain ⟨counts, stored, rfl⟩ | ⟨-, rfl⟩ := countLeave_eq_ok counted
    · exact admitted_put stored (by rfl) v
    · rfl

theorem membersOf_write {old job : Job} {m : Table Uuid MemberCounts} (row : RowWrite c id old job m)
    (jobs : d.jobs = c.jobs.put id job) (v : Uuid) : membersOf d v = membersOf c v := by
  have kept : job.workflowId = old.workflowId := congrArg Identity.workflowId row.kept
  have moved := Table.count_put_of_get? row.stored job fun _ j => decide (j.workflowId = some v)
  rw [kept] at moved
  unfold membersOf
  rw [jobs]
  exact Nat.add_right_cancel moved

/-- Only reservations take places. -/
theorem Transition.places_eq (h : Transition l c d) (members : MembersTrue c) (quiet : ∀ w, l ≠ .reserve w) (v : Uuid) :
    placesOf d v = placesOf c v := by
  cases h with
  | mint | dropEdge | changeWorkflow => rfl
  | start row => exact congrArg (·.getD 0) (admitted_write row.counted v)
  | change _ row => exact congrArg (·.getD 0) (admitted_write row.counted v)
  | promote _ row => exact congrArg (·.getD 0) (admitted_write row.counted v)
  | enter _ _ _ _ _ _ _ _ _ counted => exact congrArg (·.getD 0) (admitted_insert counted v)
  | delete _ _ _ counted => exact congrArg (·.getD 0) (admitted_delete counted v)
  | reserve => exact absurd rfl (quiet _)
  | @createWorkflow _ w r fresh =>
    unfold placesOf
    rw [Table.get?_put]
    split_ifs with own
    · subst own
      rw [(members.paired v).mpr fresh]
      rfl
    · rfl

/-- Only entries and deletions change who is stored. -/
theorem Transition.members_eq (h : Transition l c d) (quiet : (∀ id p, l ≠ .enter id p) ∧ ∀ id, l ≠ .delete id)
    (v : Uuid) : membersOf d v = membersOf c v := by
  cases h with
  | mint | dropEdge | changeWorkflow | reserve | createWorkflow => rfl
  | start row => exact membersOf_write row rfl v
  | change _ row => exact membersOf_write row rfl v
  | promote _ row => exact membersOf_write row rfl v
  | enter => exact absurd rfl (quiet.1 _ _)
  | delete => exact absurd rfl (quiet.2 _)

end Counts

section Limits

/-- Every workflow has a limit, and its counter stands within it. -/
def WithinLimits (c : Core) : Prop :=
  ∀ w r, c.workflows.get? w = some r → ∃ limit total, r.memberLimit = some limit ∧
    (c.memberCounts.get? w).bind (·.admittedTotal) = some total ∧ total ≤ limit

theorem WorkflowChange.memberLimit {counts : Option MemberCounts} {old new : WorkflowRow}
    (changed : WorkflowChange counts old new) : new.memberLimit = old.memberLimit := by
  cases changed <;> rfl

theorem WithinLimits.of_counts (within : WithinLimits c) (workflows : d.workflows = c.workflows)
    (counts : ∀ v, (d.memberCounts.get? v).bind (·.admittedTotal) = (c.memberCounts.get? v).bind (·.admittedTotal)) :
    WithinLimits d := fun w r stored => by
  obtain ⟨limit, total, limited, counted, room⟩ := within w r (workflows ▸ stored)
  exact ⟨limit, total, limited, (counts w).trans counted, room⟩

theorem WithinLimits.step (within : WithinLimits c) (h : Transition l c d) : WithinLimits d := by
  cases h with
  | mint | dropEdge => exact within.of_counts rfl fun _ => rfl
  | start row => exact within.of_counts rfl fun v => admitted_write row.counted v
  | change _ row => exact within.of_counts rfl fun v => admitted_write row.counted v
  | promote _ row => exact within.of_counts rfl fun v => admitted_write row.counted v
  | enter _ _ _ _ _ _ _ _ _ counted => exact within.of_counts rfl fun v => admitted_insert counted v
  | delete _ _ _ counted => exact within.of_counts rfl fun v => admitted_delete counted v
  | @reserve _ w r counts n limit total there limited counted admitted places room =>
    intro v r' stored
    obtain ⟨limit', total', limited', counted', room'⟩ := within v r' stored
    rw [Table.get?_put]
    split_ifs with own
    · subst own
      cases there.symm.trans stored
      exact ⟨limit, total + n, limited, rfl, room⟩
    · exact ⟨limit', total', limited', counted', room'⟩
  | @createWorkflow _ w r fresh _ _ _ _ limited =>
    intro v r' stored
    simp only [Table.get?_put] at stored ⊢
    split_ifs at stored ⊢
    · cases stored
      obtain ⟨limit, is⟩ := Option.isSome_iff_exists.mp limited
      have checks := r.checks
      simp only [WorkflowRow.checksOk, Bool.and_eq_true, is, Option.all_some, decide_eq_true_eq] at checks
      exact ⟨limit, 0, is, rfl, by omega⟩
    · exact within v r' stored
  | @changeWorkflow _ w old new there changed =>
    intro v r' stored
    rw [Table.get?_put] at stored
    split_ifs at stored with own
    · cases stored
      subst own
      obtain ⟨limit, total, limited, rest⟩ := within v old there
      exact ⟨limit, total, changed.memberLimit.trans limited, rest⟩
    · exact within v r' stored

theorem System.Reachable.withinLimits {site : Site} {allowed : System → Env → Command → Prop} {s : System}
    (reachable : System.Reachable site allowed s) : WithinLimits s.db.toCore :=
  reachable.core (fun _ _ _ here => by cases here) fun within h => within.step h

end Limits

section Balance

/-- The jobs of a workflow that a step adds. -/
def entered (db db' : Db) (w : Uuid) : List (Uuid × Job) := (newJobs db db').filter fun e => e.2.workflowId = some w

/-- As many places are taken as members come in, and no job goes. -/
structure Balanced (db db' : Db) : Prop where
  same : ∀ w, unfilled db'.toCore w = unfilled db.toCore w
  rows : ∀ id job, db.jobs.get? id = some job → ∃ job', db'.jobs.get? id = some job' ∧ job'.workflowId = job.workflowId

/-- No place is taken and no member comes in. -/
structure Unjoined (db db' : Db) : Prop where
  places : ∀ w, placesOf db'.toCore w = placesOf db.toCore w
  rows : ∀ id job, db'.jobs.get? id = some job → ∀ w, job.workflowId = some w →
    ∃ was, db.jobs.get? id = some was ∧ was.workflowId = some w

theorem Balanced.refl (db : Db) : Balanced db db := ⟨fun _ => rfl, fun _ job here => ⟨job, here, rfl⟩⟩

theorem Balanced.trans (first : Balanced db db₁) (second : Balanced db₁ db') : Balanced db db' := by
  refine ⟨fun w => (second.same w).trans (first.same w), fun id job here => ?_⟩
  obtain ⟨mid, there, kept⟩ := first.rows id job here
  obtain ⟨job', here', kept'⟩ := second.rows id mid there
  exact ⟨job', here', kept'.trans kept⟩

theorem Unjoined.refl (db : Db) : Unjoined db db := ⟨fun _ => rfl, fun _ job here _ member => ⟨job, here, member⟩⟩

theorem Unjoined.trans (first : Unjoined db db₁) (second : Unjoined db₁ db') : Unjoined db db' := by
  refine ⟨fun w => (second.places w).trans (first.places w), fun id job here w member => ?_⟩
  obtain ⟨mid, there, kept⟩ := second.rows id job here w member
  exact first.rows id mid there w kept

/-- A change of other tables. -/
theorem Balanced.aside (jobs : db'.jobs = db.jobs) (counts : db'.memberCounts = db.memberCounts) : Balanced db db' :=
  ⟨fun w => by simp only [unfilled, placesOf, membersOf, jobs, counts], fun _ job here => ⟨job, jobs ▸ here, rfl⟩⟩

theorem Unjoined.aside (jobs : db'.jobs = db.jobs) (counts : db'.memberCounts = db.memberCounts) : Unjoined db db' :=
  ⟨fun w => by simp only [placesOf, counts], fun _ job here _ member => ⟨job, jobs ▸ here, member⟩⟩

theorem Balanced.of_steps (steps : Steps S db.toCore db'.toCore) (ok : Sound db.toCore)
    (quiet : (∀ w, .reserve w ∉ S) ∧ (∀ id p, .enter id p ∉ S) ∧ ∀ id, .delete id ∉ S) : Balanced db db' := by
  constructor
  · refine (steps.invariant (I := fun c => Sound c ∧ ∀ w, unfilled c w = unfilled db.toCore w)
      (fun {l c d} member h before => ⟨before.1.step h, fun w => ?_⟩) ⟨ok, fun _ => rfl⟩).2
    have places := h.places_eq before.1.members (fun w is => quiet.1 w (is ▸ member)) w
    have members := h.members_eq ⟨fun id p is => quiet.2.1 id p (is ▸ member),
      fun id is => quiet.2.2 id (is ▸ member)⟩ w
    rw [unfilled, places, members]
    exact before.2 w
  · intro id job here
    refine steps.row (R := fun r s => ∀ job, r = some job → ∃ job', s = some job' ∧ job'.workflowId = job.workflowId) id
      (fun _ job here => ⟨job, here, rfl⟩) (fun first second job here => ?_) (fun {l r s} member move job here => ?_) job here
    · obtain ⟨mid, there, kept⟩ := first job here
      obtain ⟨job', here', kept'⟩ := second mid there
      exact ⟨job', here', kept'.trans kept⟩
    · cases move with
      | same => exact ⟨job, here, rfl⟩
      | change _ _ kept =>
        cases here
        exact ⟨_, rfl, congrArg Identity.workflowId kept⟩
      | delete label => exact absurd (label ▸ member) (quiet.2.2 id)
      | enter => cases here

theorem Unjoined.of_steps (steps : Steps S db.toCore db'.toCore) (ok : Sound db.toCore)
    (quiet : (∀ w, .reserve w ∉ S) ∧ ∀ id p, .enter id p ∉ S) : Unjoined db db' := by
  constructor
  · refine (steps.invariant (I := fun c => Sound c ∧ ∀ w, placesOf c w = placesOf db.toCore w)
      (fun {l c d} member h before => ⟨before.1.step h, fun w => ?_⟩) ⟨ok, fun _ => rfl⟩).2
    exact (h.places_eq before.1.members (fun w is => quiet.1 w (is ▸ member)) w).trans (before.2 w)
  · intro id job here w belongs
    obtain ⟨was, there, kept⟩ := steps.job id (C := fun i j => j.workflowId = i.workflowId) (fun _ => rfl)
      (fun first second => second.trans first) (quiet.2 id) (fun _ kept _ => congrArg Identity.workflowId kept) here
    exact ⟨was, there, kept.symm.trans belongs⟩

/-- As many places as members: what comes in is what is counted. -/
theorem Balanced.entered (balanced : Balanced db db') (w : Uuid) :
    placesOf db'.toCore w = placesOf db.toCore w + (entered db db' w).length := by
  have split : membersOf db'.toCore w = (Taskq.entered db db' w).length + membersOf db.toCore w := by
    have parts := List.length_eq_length_filter_add (l := db'.jobs.select fun _ j => j.workflowId = some w)
      fun e => (db.jobs.get? e.1).isNone
    have fresh : ((db'.jobs.select fun _ j => j.workflowId = some w).filter fun e => (db.jobs.get? e.1).isNone) =
        Taskq.entered db db' w := by
      simp only [Taskq.entered, newJobs, Table.select, List.filter_filter, Bool.and_comm]
    have old : ((db'.jobs.select fun _ j => j.workflowId = some w).filter
        fun e => !(db.jobs.get? e.1).isNone).length = membersOf db.toCore w := by
      have both : ((db'.jobs.select fun _ j => j.workflowId = some w).filter fun e => !(db.jobs.get? e.1).isNone) =
          db'.jobs.select fun id j => !(db.jobs.get? id).isNone && decide (j.workflowId = some w) := by
        simp only [Table.select, List.filter_filter]
      rw [both]
      refine Table.count_congr fun id => ⟨?_, ?_⟩
      · rintro ⟨job', here, chosen⟩
        simp only [Bool.and_eq_true, Bool.not_eq_true', decide_eq_true_eq] at chosen
        obtain ⟨job, there⟩ := Option.ne_none_iff_exists'.mp (Option.isNone_eq_false_iff.mp chosen.1 |> Option.isSome_iff_ne_none.mp)
        obtain ⟨job'', here', kept⟩ := balanced.rows id job there
        cases here.symm.trans here'
        exact ⟨job, there, by simp [← kept, chosen.2]⟩
      · rintro ⟨job, there, member⟩
        obtain ⟨job', here, kept⟩ := balanced.rows id job there
        exact ⟨job', here, by simpa [there, kept] using member⟩
    rw [← fresh, ← old]
    exact parts
  have same := balanced.same w
  simp only [unfilled, split, Nat.cast_add] at same
  linarith

theorem Unjoined.entered (unjoined : Unjoined db db') (w : Uuid) :
    placesOf db'.toCore w = placesOf db.toCore w + (entered db db' w).length := by
  have none' : Taskq.entered db db' w = [] := by
    refine List.filter_eq_nil_iff.mpr fun e member => ?_
    obtain ⟨here, fresh⟩ := Table.mem_select.mp (show (e.1, e.2) ∈ newJobs db db' from member)
    intro belongs
    obtain ⟨was, there, -⟩ := unjoined.rows e.1 e.2 here w (of_decide_eq_true belongs)
    simp [there] at fresh
  rw [none', unjoined.places w]
  simp

end Balance

section Enqueue

/-- One if the row is a member of the workflow. -/
def joins (r : JobRow) (w : Uuid) : ℤ := one (r.workflowId = some w)

theorem reserveWorkflowMembers_places {n : ℤ} {policy : Option String}
    (run : reserveWorkflowMembers w n policy db = .ok db') (within : WithinLimits db.toCore) :
    db'.jobs = db.jobs ∧ ∀ v, placesOf db'.toCore v = placesOf db.toCore v + if v = w then n else 0 := by
  simp only [reserveWorkflowMembers, seq_eq_ok] at run
  obtain ⟨-, -, run⟩ := run
  split at run
  · cases run
  · rename_i r stored
    obtain ⟨limit, total, limited, counted, -⟩ := within w r stored
    simp only [seq_eq_ok] at run
    obtain ⟨-, -, run⟩ := run
    split at run
    · rename_i unlimited _ _
      cases limited.symm.trans unlimited
    · cases run
    · rename_i limit' counts total' limited' there admitted
      split_ifs at run
      obtain ⟨m, put, done⟩ := seq_eq_ok.mp run
      cases done
      obtain rfl := putCounts_eq_ok put
      refine ⟨rfl, fun v => ?_⟩
      unfold placesOf
      rw [Table.get?_put]
      split_ifs with own
      · subst own
        rw [admitted]
        rfl
      · simp
    · cases run

theorem insertJob_places {row : JobRow} (run : insertJob env id row db = .ok (some db')) (v : Uuid) :
    placesOf db'.toCore v = placesOf db.toCore v ∧
      (membersOf db'.toCore v : ℤ) = membersOf db.toCore v + joins row v := by
  obtain ⟨job, counts, counters, rfl, -, -, fresh, -, counted, rfl⟩ := insertJob_frame run
  exact ⟨congrArg (·.getD 0) (admitted_insert counted v), count_inserted fresh⟩

theorem insertJob_rows {row : JobRow} (run : insertJob env id row db = .ok (some db')) {other : Uuid} {job : Job}
    (here : db.jobs.get? other = some job) : db'.jobs.get? other = some job := by
  obtain ⟨_, counts, counters, -, -, -, fresh, -, -, rfl⟩ := insertJob_frame run
  refine (Table.get?_put_of_ne _ _ fun same => ?_).trans here
  cases fresh.symm.trans (same ▸ here)

/-- A row outside workflows is no member. -/
theorem insertJob_unjoined {row : JobRow} (run : insertJob env id row db = .ok (some db')) (alone : row.workflowId = none) :
    Unjoined db db' := by
  refine ⟨fun v => (insertJob_places run v).1, fun other job here v member => ?_⟩
  obtain ⟨new, _, _, same, -, -, -, -, -, rfl⟩ := insertJob_frame run
  rw [Table.get?_put] at here
  split_ifs at here
  · cases here
    rw [same, alone] at member
    cases member
  · exact ⟨job, here, member⟩

/-- The new member takes the place that is reserved for it. -/
theorem Enqueued.balanced {a : EnqueueArgs} {answer : Uuid × Bool} (outcome : Enqueued env a db answer db')
    (within : WithinLimits db.toCore) : Balanced db db' := by
  cases outcome with
  | found => exact .aside rfl rfl
  | @created n q m reserved inserted _ _ _ _ resolved taken run finish =>
    obtain ⟨after, -⟩ := finishEnqueue_frame finish
    have jobs : db'.jobs = inserted.jobs := (congrArg Core.jobs after).trans rfl
    have counts : db'.memberCounts = inserted.memberCounts := (congrArg Core.memberCounts after).trans rfl
    have places (v : Uuid) : placesOf reserved.toCore v = placesOf db.toCore v + joins (a.row env q m) v ∧
        reserved.jobs = db.jobs := by
      cases resolved with
      | ordinary free =>
        cases taken
        simp [joins, EnqueueArgs.row, free, placesOf]
      | @member w workflow hash live named =>
        obtain ⟨jobs, places⟩ := reserveWorkflowMembers_places taken within
        refine ⟨(places v).trans ?_, jobs⟩
        simp only [joins, EnqueueArgs.row, named, Option.some.injEq, one, decide_eq_true_eq, eq_comm (a := w)]
        rfl
    refine Balanced.trans ⟨fun v => ?_, fun other job here => ?_⟩ (.aside jobs counts)
    · obtain ⟨still, more⟩ := insertJob_places run v
      have same : membersOf reserved.toCore v = membersOf db.toCore v := by
        simp only [membersOf, (places v).2]
      rw [unfilled, unfilled, still, more, (places v).1, same]
      ring
    · refine ⟨job, insertJob_rows run ?_, rfl⟩
      rw [(places 0).2]
      exact here

/-- A call outside workflows adds no member. -/
theorem Enqueued.unjoined {a : EnqueueArgs} {answer : Uuid × Bool} (outcome : Enqueued env a db answer db')
    (alone : a.workflowId = none) : Unjoined db db' := by
  cases outcome with
  | found => exact .aside rfl rfl
  | @created n q m reserved inserted _ _ _ _ resolved taken run finish =>
    obtain ⟨after, -⟩ := finishEnqueue_frame finish
    have jobs : db'.jobs = inserted.jobs := (congrArg Core.jobs after).trans rfl
    have counts : db'.memberCounts = inserted.memberCounts := (congrArg Core.memberCounts after).trans rfl
    cases resolved with
    | member named => cases alone.symm.trans named
    | ordinary =>
      cases taken
      have minted : Unjoined db { db with nextUuid := db.nextUuid + n + 1 } := .aside rfl rfl
      exact minted.trans ((insertJob_unjoined run alone).trans (.aside jobs counts))

end Enqueue

end Taskq
