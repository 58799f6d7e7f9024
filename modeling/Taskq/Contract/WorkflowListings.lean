import Taskq.Contract.Lifecycles
import Taskq.Contract.Listings
import Taskq.Invariants.Memberships

/-! Workflows and their members, listed while calls go on. -/
namespace Taskq
open Relational

variable {site : Site} {allowed : System → Env → Command → Prop} {s t : System}

section Workflows

variable {view : Option String} {r r' : Uuid × Workflow} {env env' : Env} {n : ℤ}

/-- Where a workflow stands in a view. -/
def workflowSpot (view : Option String) (r : Uuid × Workflow) : ℤ ×ₗ ℤ :=
  toLex (-(workflowTime view r.2).getD 0, -(r.1 : ℤ))

/-- The workflow has a value in the column that orders the view. -/
def WorkflowTimed (view : Option String) (r : Uuid × Workflow) : Prop := (workflowTime view r.2).isSome

/-- The workflows of a view, in its order. -/
def workflowsSeen (view : Option String) (g : Env × Db) : List (Uuid × Workflow) :=
  g.2.workflows.selectBy (fun _ r => decide (r.status = .running) = runningView view) (workflowLe view)

theorem workflowLe_order (view : Option String) : Table.RowOrder (workflowLe view) := by
  refine columns_order (workflowColumns view) ?_ true
  intro a b same
  simp only [workflowColumns, List.cons.injEq, Option.some.injEq, Nat.cast_inj, and_true] at same
  exact same.2

theorem mem_workflowsSeen {g : Env × Db} : r ∈ workflowsSeen view g ↔ g.2.workflows.get? r.1 = some r.2 ∧
    decide (r.2.status = .running) = runningView view := by
  rw [workflowsSeen, Table.mem_selectBy, decide_eq_true_eq]

/-- A workflow has an end when it does not run any more. -/
theorem Workflow.finishedAt_isSome (w : Workflow) : w.finishedAt.isSome = true ↔ w.status ≠ .running := by
  have checks := w.checks
  simp only [WorkflowRow.checksOk, Bool.and_eq_true, decide_eq_true_eq] at checks
  obtain ⟨⟨⟨⟨⟨⟨-, finished⟩, -⟩, -⟩, -⟩, -⟩, -⟩ := checks
  rw [ne_eq, finished, Option.isNone_iff_eq_none, ← ne_eq, Option.ne_none_iff_isSome]

/-- Running workflows have an update, ended ones an end. -/
theorem workflowsSeen_timed {g : Env × Db} : ∀ r ∈ workflowsSeen view g, WorkflowTimed view r := by
  intro r member
  obtain ⟨-, same⟩ := mem_workflowsSeen.mp member
  unfold WorkflowTimed workflowTime
  split_ifs with running
  · rfl
  · rw [Bool.not_eq_true] at running
    rw [running, decide_eq_false_iff_not] at same
    exact r.2.finishedAt_isSome.mpr same

theorem workflowColumns_timed (timed : WorkflowTimed view r) :
    workflowColumns view r = [some ((workflowTime view r.2).getD 0), some (r.1 : ℤ)] := by
  obtain ⟨t, at'⟩ := Option.isSome_iff_exists.mp timed
  rw [workflowColumns, at', Option.getD_some]

theorem workflowLe_iff_spot (timed : WorkflowTimed view r) (timed' : WorkflowTimed view r') :
    workflowLe view r r' = true ↔ workflowSpot view r ≤ workflowSpot view r' := by
  rw [workflowLe, workflowColumns_timed timed, workflowColumns_timed timed', columnsLe_cons, columns_single.1, workflowSpot,
    workflowSpot, Prod.Lex.toLex_le_toLex]
  simp only [neg_lt_neg_iff, neg_le_neg_iff, neg_inj]
  omega

theorem workflowsSeen_sorted (view : Option String) (g : Env × Db) : Keyset.Sorted (workflowSpot view) (workflowsSeen view g) := by
  refine Keyset.sorted_selectBy (workflowLe_order view) ?_
  intro a here b there
  exact workflowLe_iff_spot (workflowsSeen_timed a here) (workflowsSeen_timed b there)

/-- A session reads the texts that another writes into the cursor of a workflow. -/
structure WorkflowReads (env' env : Env) (view : Option String) (r : Uuid × Workflow) : Prop where
  id : env'.parseUuid (Uuid.text r.1) = some r.1
  time : ∀ t, workflowTime view r.2 = some t → env'.parseTime (env.timeText t) = some t

theorem workflowCursor_fields (env : Env) (view : Option String) (r : Uuid × Workflow) :
    (workflowCursor env view r).field? "view" = some (.ofText? view) ∧
    (workflowCursor env view r).field? "id" = some (.str (Uuid.text r.1)) ∧
    (workflowCursor env view r).field? "ordered_at" = some (timeJson env (workflowTime view r.2)) := by
  unfold workflowCursor
  simp only [Jsonb.field?_build]
  simp

theorem readWorkflowCursor_own (reads : WorkflowReads env' env view r) (timed : WorkflowTimed view r) :
    readWorkflowCursor env' view (workflowCursor env view r) = .ok (workflowColumns view r) := by
  obtain ⟨view', id, time⟩ := workflowCursor_fields env view r
  obtain ⟨t, at'⟩ := Option.isSome_iff_exists.mp timed
  have named : (Jsonb.ofText? view).scalarText? = view := by cases view <;> rfl
  have id' := castText_of id rfl reads.id
  have time' : castText env'.parseTime (workflowCursor env view r) "ordered_at" = .ok (some t) := by
    refine castText_of time ?_ (reads.time t at')
    rw [at']
    rfl
  have casts : castWorkflowCursor env' (workflowCursor env view r) = .ok (workflowColumns view r) := by
    rw [castWorkflowCursor, time', id', workflowColumns, at']
    rfl
  simp only [readWorkflowCursor, seq_eq_ok, ensure_eq_ok, casts]
  refine ⟨(), ⟨rfl, ?_, ?_, ?_⟩, rfl⟩
  · simp [Jsonb.fieldText?, view', named]
  · simp [Jsonb.hasKey_iff, id]
  · simp [Jsonb.hasKey_iff, time]

/-- The pages of a view that sessions list, with the cursors that lead on. -/
def workflowPages (view : Option String) (n : ℤ) (g : Env × Db) (cursor : Option Jsonb) :
    Call (List WorkflowListItem × Option Jsonb) :=
  (listWorkflows g.1 view (some n) cursor g.2).map fun page => (page.items, page.nextAfter)

/-- The arguments that `list_workflows` takes. -/
def ListsWorkflows (view : Option String) (n : ℤ) : Prop :=
  view.all (fun v => v = "running" ∨ v = "finished") = true ∧ 1 ≤ n ∧ n ≤ 100

theorem workflowPages_ok {g : Env × Db} {cursor : Option Jsonb} {page : List WorkflowListItem × Option Jsonb}
    (run : workflowPages view n g cursor = .ok page) : ListsWorkflows view n := by
  obtain ⟨answer, run, -⟩ := map_eq_ok.mp run
  simp only [listWorkflows, seq_eq_ok, ensure_eq_ok] at run
  obtain ⟨-, ⟨known, limit⟩, -⟩ := run
  exact ⟨known, by simpa [pageLimitOk] using limit⟩

/-- Where a cursor leads on in the view. -/
def WorkflowLeads (glances : Set (Env × Db)) (view : Option String) (cursor : Option Jsonb) (spot : Option (ℤ ×ₗ ℤ)) : Prop :=
  cursor = none ∧ spot = none ∨ ∃ g ∈ glances, ∃ r ∈ workflowsSeen view g,
    cursor = some (workflowCursor g.1 view r) ∧ spot = some (workflowSpot view r)

theorem workflowsSeen_after (last : Option (Uuid × Workflow)) {g : Env × Db} (timed : ∀ r, last = some r → WorkflowTimed view r) :
    g.2.workflows.selectBy (fun id r => decide (r.status = .running) = runningView view &&
        (last.map (workflowColumns view)).all fun c => rowLt (workflowColumns view (id, r)) c) (workflowLe view) =
      Keyset.after (workflowSpot view) (last.map (workflowSpot view)) (workflowsSeen view g) := by
  refine Keyset.selectBy_after (workflowLe_order view) ?_
  intro r member
  cases last with
  | none => simp
  | some last =>
    simp only [Option.map_some, Option.all_some, Option.some.injEq, forall_eq']
    rw [workflowColumns_timed (timed last rfl), workflowColumns_timed (workflowsSeen_timed r member), rowLt_cons,
      columns_single.2, workflowSpot, workflowSpot, Prod.Lex.toLex_lt_toLex]
    simp only [neg_lt_neg_iff, neg_inj]
    omega

/-- Each call gives the page of its workflows after the cursor, and the cursor of the last of them. -/
theorem workflowPages_serves {states : List (Env × Db)} (lists : ListsWorkflows view n)
    (reads : ∀ g ∈ states, ∀ g' ∈ states, ∀ r ∈ workflowsSeen view g', WorkflowReads g.1 g'.1 view r) :
    Keyset.Serves (workflowPages view n) (workflowSpot view) n.toNat (workflowsSeen view) WorkflowListItem.of
      (fun g => workflowCursor g.1 view) (WorkflowLeads {g | g ∈ states} view) states := by
  constructor
  · intro g member cursor spot leads
    obtain ⟨last, casts, rfl, timed⟩ : ∃ last : Option (Uuid × Workflow),
        (cursor.elim (.ok none) fun c => (readWorkflowCursor g.1 view c).map some) = .ok (last.map (workflowColumns view)) ∧
        last.map (workflowSpot view) = spot ∧ ∀ r, last = some r → WorkflowTimed view r := by
      obtain ⟨rfl, rfl⟩ | ⟨g', member', r, seen, rfl, rfl⟩ := leads
      · exact ⟨none, rfl, rfl, by rintro r ⟨⟩⟩
      · have timed := workflowsSeen_timed r seen
        refine ⟨some r, ?_, rfl, ?_⟩
        · rw [Option.elim_some, readWorkflowCursor_own (reads g member g' member' r seen) timed]
          rfl
        · rintro _ ⟨⟩
          exact timed
    have arguments : ensure (view.all (fun v => v = "running" ∨ v = "finished") ∧ pageLimitOk (some n))
        (tq422 "invalid workflow list input") = .ok () :=
      ensure_eq_ok.mpr ⟨lists.1, by simpa [pageLimitOk] using lists.2⟩
    have positive : 0 ≤ n := by
      have := lists.2.1
      omega
    have rows := workflowsSeen_after last (g := g) timed
    unfold workflowPages
    simp only [listWorkflows, arguments, Option.getD_some, casts, bind, Except.bind, rows, cutPage_page positive]
    rfl
  · intro g member r seen
    exact .inr ⟨g, member, r, seen, rfl, rfl⟩

end Workflows

section Tour

variable {w : Uuid} {r : Workflow} {n : ℤ}

/-- Sessions that look at the states of a run, one after the other. -/
structure Tour (site : Site) (allowed : System → Env → Command → Prop) (visits : List (Env × System)) : Prop where
  reachable : ∀ v ∈ visits, System.Reachable site allowed v.2
  inOrder : visits.Pairwise fun v v' => System.Run site allowed v.2 v'.2

/-- What a session sees of the state. -/
def glance (v : Env × System) : Env × Db := (v.1, v.2.db)

theorem WorkflowChange.keeps_end {counts : Option MemberCounts} {old new : WorkflowRow} (changed : WorkflowChange counts old new)
    (shut : old.sealedAt.isSome = true) (halted : old.status ≠ .running) :
    new.status = old.status ∧ new.finishedAt = old.finishedAt ∧ new.sealedAt.isSome = true := by
  cases changed with
  | touch => exact ⟨rfl, rfl, shut⟩
  | «seal» _ _ unsealed | sealFinished _ _ _ unsealed =>
    rw [unsealed] at shut
    cases shut
  | cancel _ _ _ running | finish _ _ _ running => exact absurd running halted

/-- An ended workflow keeps its end over every run. -/
theorem System.Run.keeps_end (reachable : System.Reachable site allowed s) (run : System.Run site allowed s t)
    (stored : s.db.workflows.get? w = some r) (halted : r.status ≠ .running) :
    ∃ r', t.db.workflows.get? w = some r' ∧ r'.status = r.status ∧ r'.finishedAt = r.finishedAt := by
  let Ended (c : Core) : Prop := ∃ r', c.workflows.get? w = some r' ∧ r'.status = r.status ∧ r'.finishedAt = r.finishedAt ∧
    r'.sealedAt.isSome = true
  have start : Ended s.db.toCore := ⟨r, stored, rfl, rfl, (reachable.closed.ended w r stored halted).1⟩
  have last : Ended t.db.toCore := by
    refine run.induction (I := fun t => Ended t.db.toCore) start fun {t u env command} before _ next => ?_
    obtain ⟨F, -, steps⟩ := next.steps
    refine steps.invariant (I := Ended) (fun {l c d} _ h before => ?_) before
    obtain ⟨r', there, status, time, shut⟩ := before
    have move := h.workflow w
    rw [there] at move
    unfold Ended
    generalize d.workflows.get? w = after at move
    cases move with
    | same => exact ⟨r', rfl, status, time, shut⟩
    | change _ changed =>
      obtain ⟨status', time', shut'⟩ := changed.keeps_end shut (status ▸ halted)
      exact ⟨_, rfl, status'.trans status, time'.trans time, shut'⟩
  obtain ⟨r', there, status, time, -⟩ := last
  exact ⟨r', there, status, time⟩

/-- A relation that holds along the run, and of whom it holds in either direction, holds of all visits. -/
theorem Tour.both {visits : List (Env × System)} {R : System → System → Prop} (along : Tour site allowed visits)
    (symm : ∀ a b, R a b → R b a)
    (forth : ∀ a b, System.Reachable site allowed a → System.Run site allowed a b → R a b) :
    ∀ v ∈ visits, ∀ v' ∈ visits, R v.2 v'.2 := by
  have pairs : visits.Pairwise fun v v' => R v.2 v'.2 := by
    refine along.inOrder.imp_of_mem ?_
    intro v v' member _ run
    exact forth v.2 v'.2 (along.reachable v member) run
  have symmetric : Std.Symm fun v v' : Env × System => R v.2 v'.2 := ⟨fun a b => symm a.2 b.2⟩
  intro v member v' member'
  refine pairs.forall_of_forall ?_ member member'
  intro a here
  exact forth a.2 a.2 (along.reachable a here) .start

/-- All visits find an ended workflow with the same end. -/
theorem Tour.same_end {visits : List (Env × System)} (along : Tour site allowed visits) :
    ∀ v ∈ visits, ∀ v' ∈ visits, ∀ w r r', v.2.db.workflows.get? w = some r → v'.2.db.workflows.get? w = some r' →
      r.status ≠ .running → r'.status ≠ .running → r.finishedAt = r'.finishedAt := by
  refine along.both (R := fun s t => ∀ w r r', s.db.workflows.get? w = some r → t.db.workflows.get? w = some r' →
    r.status ≠ .running → r'.status ≠ .running → r.finishedAt = r'.finishedAt) ?_ ?_
  · intro a b same w r r' stored stored' halted halted'
    exact (same w r' r stored' stored halted' halted).symm
  · intro a b reachable run w r r' stored stored' halted _
    obtain ⟨later, there, -, ends⟩ := run.keeps_end reachable stored halted
    cases there.symm.trans stored'
    exact ends.symm

/-- All visits follow the first. -/
theorem Tour.first_run {visits : List (Env × System)} (along : Tour site allowed visits) {v : Env × System}
    (first : visits.head? = some v) : ∀ v' ∈ visits, System.Run site allowed v.2 v'.2 := by
  obtain ⟨rest, rfl⟩ := List.head?_eq_some_iff.mp first
  intro v' member
  obtain rfl | later := List.mem_cons.mp member
  · exact .start
  · exact (List.pairwise_cons.mp along.inOrder).1 v' later

/-- The last visit follows all of them. -/
theorem Tour.last_run {visits : List (Env × System)} (along : Tour site allowed visits) {v : Env × System}
    (last : visits.getLast? = some v) : ∀ v' ∈ visits, System.Run site allowed v'.2 v.2 := by
  obtain ⟨before, rfl⟩ := List.getLast?_eq_some_iff.mp last
  intro v' member
  obtain earlier | same := List.mem_append.mp member
  · exact (List.pairwise_append.mp along.inOrder).2.2 v' earlier v (List.mem_singleton.mpr rfl)
  · rw [List.mem_singleton.mp same]
    exact .start

/-- The view of the ended workflows. -/
def endedView : Option String := some "finished"

theorem mem_endedSeen {g : Env × Db} {e : Uuid × Workflow} : e ∈ workflowsSeen endedView g ↔
    g.2.workflows.get? e.1 = some e.2 ∧ e.2.status ≠ .running := by
  rw [mem_workflowsSeen]
  have view : runningView endedView = false := rfl
  rw [view, decide_eq_false_iff_not]

theorem workflowSpot_ended {e e' : Uuid × Workflow} (halted : e.2.status ≠ .running) (halted' : e'.2.status ≠ .running) :
    workflowSpot endedView e = workflowSpot endedView e' ↔ e.2.finishedAt = e'.2.finishedAt ∧ e.1 = e'.1 := by
  obtain ⟨a, at'⟩ := Option.isSome_iff_exists.mp (e.2.finishedAt_isSome.mpr halted)
  obtain ⟨b, at''⟩ := Option.isSome_iff_exists.mp (e'.2.finishedAt_isSome.mpr halted')
  have time : workflowTime endedView e.2 = some a := at'
  have time' : workflowTime endedView e'.2 = some b := at''
  simp [workflowSpot, time, time', at', at'']

/-- An ended workflow has the same place in all of them. -/
theorem Tour.ended_fixed {visits : List (Env × System)} (along : Tour site allowed visits) :
    Keyset.Fixed (workflowSpot endedView) Prod.fst ((visits.map glance).map (workflowsSeen endedView)) := by
  intro rows member rows' member' e seen e' seen'
  rw [List.map_map] at member member'
  obtain ⟨v, here, rfl⟩ := List.mem_map.mp member
  obtain ⟨v', here', rfl⟩ := List.mem_map.mp member'
  obtain ⟨stored, halted⟩ := mem_endedSeen.mp seen
  obtain ⟨stored', halted'⟩ := mem_endedSeen.mp seen'
  rw [workflowSpot_ended halted halted']
  constructor
  · intro same
    exact ⟨along.same_end v here v' here' e.1 e.2 e'.2 stored (same ▸ stored') halted halted', same⟩
  · exact fun both => both.2

/-- Whatever calls are made between the pages, the traversal of the ended workflows lists none of them twice, lists all
that had ended before its first page, and lists each as it is stored at its page. -/
theorem ended_workflows_listed_once {visits : List (Env × System)} {answers : List (List WorkflowListItem)}
    (along : Tour site allowed visits)
    (reads : ∀ v ∈ visits, ∀ v' ∈ visits, ∀ e ∈ workflowsSeen endedView (glance v'), WorkflowReads v.1 v'.1 endedView e)
    (follows : Keyset.Follows (workflowPages endedView n) none (visits.map glance) answers) :
    (answers.flatten.map (·.workflowId)).Nodup ∧
      (∀ v, visits.head? = some v → ∀ w r, v.2.db.workflows.get? w = some r → r.status ≠ .running →
        w ∈ answers.flatten.map (·.workflowId)) ∧
      List.Forall₂ (fun v items => ∀ i ∈ items, ∃ r, v.2.db.workflows.get? i.workflowId = some r ∧ r.status ≠ .running ∧
        i = .of (i.workflowId, r)) visits answers := by
  have lists : ListsWorkflows endedView n := by
    cases eq : visits with
    | nil =>
      rw [eq] at follows
      cases follows
    | cons v rest =>
      obtain ⟨_, _, answer⟩ := follows.answered (glance v) (by simp [eq])
      exact workflowPages_ok answer
  have positive : 0 < n.toNat := by
    have := lists.2.1
    omega
  have reads' : ∀ g ∈ visits.map glance, ∀ g' ∈ visits.map glance, ∀ e ∈ workflowsSeen endedView g',
      WorkflowReads g.1 g'.1 endedView e := by
    intro g member g' member'
    obtain ⟨v, here, rfl⟩ := List.mem_map.mp member
    obtain ⟨v', there, rfl⟩ := List.mem_map.mp member'
    exact reads v here v' there
  obtain ⟨found, walk, rfl⟩ := follows.walk positive (workflowPages_serves lists reads') (.inl ⟨rfl, rfl⟩)
  have sorted : ∀ rows ∈ (visits.map glance).map (workflowsSeen endedView), Keyset.Sorted (workflowSpot endedView) rows := by
    intro rows member
    obtain ⟨g, -, rfl⟩ := List.mem_map.mp member
    exact workflowsSeen_sorted _ g
  have fixed := along.ended_fixed
  have ids : (found.map (·.map WorkflowListItem.of)).flatten.map (·.workflowId) = found.flatten.map (·.1) := by
    rw [← List.map_flatten, List.map_map]
    rfl
  rw [ids]
  refine ⟨walk.keys_nodup positive sorted fixed, ?_, ?_⟩
  · intro v first w r stored halted
    refine walk.misses_no_key positive sorted fixed ?_
    intro rows member
    rw [List.map_map] at member
    obtain ⟨v', there, rfl⟩ := List.mem_map.mp member
    have reachable := along.reachable v (List.mem_of_mem_head? first)
    obtain ⟨r', stored', status, -⟩ := (along.first_run first v' there).keeps_end reachable stored halted
    have later : (w, r') ∈ workflowsSeen endedView (glance v') := mem_endedSeen.mpr ⟨stored', status ▸ halted⟩
    exact List.mem_map.mpr ⟨_, later, rfl⟩
  · have listed := walk.listed positive
    rw [List.forall₂_map_left_iff, List.forall₂_map_left_iff] at listed
    rw [List.forall₂_map_right_iff]
    refine listed.imp ?_
    intro v rows all i member
    obtain ⟨e, inside, rfl⟩ := List.mem_map.mp member
    obtain ⟨stored, halted⟩ := mem_endedSeen.mp (all e inside)
    exact ⟨e.2, stored, halted, rfl⟩

/-- The session reads its own cursors. -/
def readsEnded (db : Db) : Bool :=
  (workflowsSeen endedView (.reader, db)).all fun e => Env.reader.parseUuid (Uuid.text e.1) = some e.1 &&
    (workflowTime endedView e.2).all fun t => Env.reader.parseTime (Env.reader.timeText t) = some t

theorem reads_of_readsEnded {db : Db} (own : readsEnded db = true) :
    ∀ e ∈ workflowsSeen endedView (.reader, db), WorkflowReads .reader .reader endedView e := by
  intro e member
  have read := List.all_eq_true.mp own e member
  simp only [Bool.and_eq_true, decide_eq_true_eq, Option.all_eq_true] at read
  exact ⟨read.1, fun t at' => read.2 t at'⟩

theorem Tour.two (reachable : System.Reachable site allowed s) (run : System.Run site allowed s t) (env env' : Env) :
    Tour site allowed [(env, s), (env', t)] := by
  constructor
  · intro v member
    simp only [List.mem_cons, List.not_mem_nil, or_false] at member
    obtain rfl | rfl := member
    · exact reachable
    · exact reachable.extend run
  · exact List.pairwise_pair.mpr run

/-- A third workflow ends between the two pages. -/
theorem ended_workflows_listed_once_third : ∃ (visits : List (Env × System)) (answers : List (List WorkflowListItem)),
    Keyset.Follows (workflowPages endedView 1) none (visits.map glance) answers ∧
    answers.map (·.map (·.workflowId)) = [[3], [2]] ∧ (answers.flatten.map (·.workflowId)).Nodup ∧
      (∀ v, visits.head? = some v → ∀ w r, v.2.db.workflows.get? w = some r → r.status ≠ .running →
        w ∈ answers.flatten.map (·.workflowId)) ∧
      List.Forall₂ (fun v items => ∀ i ∈ items, ∃ r, v.2.db.workflows.get? i.workflowId = some r ∧ r.status ≠ .running ∧
        i = .of (i.workflowId, r)) visits answers := by
  have played : System.plays .digits [(0, .ensureQueue (some "q") none),
      (0, .createWorkflow (some "k") (some "batch") (some (.obj [])) (some ["q"]) (some "a")),
      (0, .createWorkflow (some "l") (some "batch") (some (.obj [])) (some ["q"]) (some "a")),
      (0, .sealWorkflow 2 (some "a")), (0, .sealWorkflow 3 (some "a"))] (.installed .digits 0) (fun s =>
        readsEnded s.db && System.plays .digits [
          (1, .createWorkflow (some "m") (some "batch") (some (.obj [])) (some ["q"]) (some "a")),
          (1, .sealWorkflow 4 (some "a"))] s fun t => readsEnded t.db &&
            (workflowPages endedView 1 (.reader, s.db) none).toOption.any fun p =>
              p.1.map (·.workflowId) = [3] && p.2.any fun c => (workflowPages endedView 1 (.reader, t.db) (some c)).toOption.any
                fun p => p.1.map (·.workflowId) = [2] && p.2.isNone) = true := by
    decide +kernel
  obtain ⟨s, run, there⟩ := System.plays_run anyCall played fun _ _ _ => trivial
  obtain ⟨own, rest⟩ := (Bool.and_eq_true _ _).mp there
  obtain ⟨t, more, there⟩ := System.plays_run anyCall rest fun _ _ _ => trivial
  obtain ⟨own', pages⟩ := (Bool.and_eq_true _ _).mp there
  simp only [Option.any_eq_true, Bool.and_eq_true, decide_eq_true_eq, toOption_eq_some, Option.isNone_iff_eq_none] at pages
  obtain ⟨⟨first, _⟩, page, ids, c, rfl, ⟨second, _⟩, page', ids', rfl⟩ := pages
  have follows : Keyset.Follows (workflowPages endedView 1) none ([(.reader, s), (.reader, t)].map glance) [first, second] :=
    .next page (.last page')
  refine ⟨_, _, follows, ?_, ended_workflows_listed_once (Tour.two ⟨0, run⟩ more _ _) ?_ follows⟩
  · simp only [List.map_cons, List.map_nil, ids, ids']
  · intro v member v' member'
    simp only [List.mem_cons, List.not_mem_nil, or_false] at member member'
    obtain rfl | rfl := member <;> obtain rfl | rfl := member'
    all_goals
      first
      | exact reads_of_readsEnded own
      | exact reads_of_readsEnded own'

end Tour

section Members

variable {w id : Uuid} {n : ℤ} {job : Job}

theorem idLe_order {ρ : Type} : Table.RowOrder (idLe : Uuid × ρ → Uuid × ρ → Bool) where
  total a b := by simpa [idLe] using le_total a.1 b.1
  trans a b c first second := by
    simp only [idLe, decide_eq_true_eq] at first second ⊢
    exact first.trans second
  key a b forth back := by
    simp only [idLe, decide_eq_true_eq] at forth back
    exact forth.antisymm back

/-- The members of a workflow, in the order of their identifiers. -/
def membersSeen (w : Uuid) (g : Env × Db) : List (Uuid × Job) := g.2.jobs.selectBy (fun _ j => j.workflowId = some w) idLe

theorem mem_membersSeen {g : Env × Db} {e : Uuid × Job} : e ∈ membersSeen w g ↔
    g.2.jobs.get? e.1 = some e.2 ∧ e.2.workflowId = some w := by
  rw [membersSeen, Table.mem_selectBy, decide_eq_true_eq]

theorem membersSeen_sorted (w : Uuid) (g : Env × Db) : Keyset.Sorted Prod.fst (membersSeen w g) := by
  refine Keyset.sorted_selectBy idLe_order ?_
  intro a _ b _
  exact decide_eq_true_iff

/-- The pages of members that sessions list, with the identifiers that lead on. -/
def memberPages (w : Uuid) (n : ℤ) (g : Env × Db) (after : Option Uuid) : Call (List WorkflowMember × Option Uuid) :=
  (getWorkflowPage g.1 (some w) (some n) after g.2).map fun page => (page.items, page.nextAfter)

/-- Each call gives the page of the members after the identifier. -/
theorem getWorkflowPage_eq {g : Env × Db} {after : Option Uuid} {r : Workflow} {counts : MemberCounts} (limit : 1 ≤ n ∧ n ≤ 100)
    (stored : g.2.workflows.get? w = some r) (counted : g.2.memberCounts.get? w = some counts) :
    getWorkflowPage g.1 (some w) (some n) after g.2 = .ok ⟨g.1.now, .of w r counts, counts,
      (Keyset.page Prod.fst n.toNat after (membersSeen w g)).1.map .of,
      (Keyset.page Prod.fst n.toNat after (membersSeen w g)).2.map (·.1)⟩ := by
  have arguments : ensure ((some w).isSome ∧ pageLimitOk (some n)) (tq422 "invalid workflow page input") = .ok () :=
    ensure_eq_ok.mpr ⟨rfl, by simpa [pageLimitOk] using limit⟩
  have positive : 0 ≤ n := by omega
  have rows : g.2.jobs.selectBy (fun id j => j.workflowId = some w && after.all (· < id)) idLe =
      Keyset.after Prod.fst after (membersSeen w g) := by
    refine Keyset.selectBy_after idLe_order ?_
    intro e _
    cases after with
    | none => simp
    | some last => simp
  simp only [getWorkflowPage, arguments, Option.getD_some, bind, Except.bind, stored, counted, rows, cutPage_page positive]

theorem getWorkflowPage_ok {env : Env} {db : Db} {after : Option Uuid} {page : WorkflowPage}
    (run : getWorkflowPage env (some w) (some n) after db = .ok page) : (1 ≤ n ∧ n ≤ 100) ∧
      (∃ r, db.workflows.get? w = some r) ∧ db.memberCounts.get? w = some page.counts := by
  simp only [getWorkflowPage, seq_eq_ok, ensure_eq_ok, Option.getD_some] at run
  obtain ⟨-, ⟨-, limit⟩, run⟩ := run
  split at run
  · cases run
  · rename_i r stored
    split at run
    · cases run
    · rename_i counts counted
      cases run
      exact ⟨by simpa [pageLimitOk] using limit, ⟨r, stored⟩, counted⟩

theorem memberPages_serves {states : List (Env × Db)} (limit : 1 ≤ n ∧ n ≤ 100)
    (known : ∀ g ∈ states, ∃ r counts, g.2.workflows.get? w = some r ∧ g.2.memberCounts.get? w = some counts) :
    Keyset.Serves (memberPages w n) Prod.fst n.toNat (membersSeen w) WorkflowMember.of (fun _ => Prod.fst) Eq states := by
  constructor
  · rintro g member after _ rfl
    obtain ⟨r, counts, stored, counted⟩ := known g member
    rw [memberPages, getWorkflowPage_eq limit stored counted]
    rfl
  · intro g _ e _
    rfl

theorem System.Run.nextUuid_le (run : System.Run site allowed s t) : s.db.nextUuid ≤ t.db.nextUuid := by
  refine run.relates (R := fun s t => s.db.nextUuid ≤ t.db.nextUuid) (fun _ => le_rfl) le_trans fun _ step => ?_
  obtain ⟨F, -, steps⟩ := step.steps
  exact steps.nextUuid_le

/-- A member that is still stored later was a member all along. -/
theorem member_throughout {u : System} (reachable : System.Reachable site allowed s) (run : System.Run site allowed s t)
    (more : System.Run site allowed t u) (stored : s.db.jobs.get? id = some job) (member : job.workflowId = some w)
    (last : (u.db.jobs.get? id).isSome) : ∃ job', t.db.jobs.get? id = some job' ∧ job'.workflowId = some w := by
  have drawn : id < s.db.nextUuid := reachable.sound.minted.jobs id (by simp [stored])
  obtain ⟨job'', there⟩ := Option.isSome_iff_exists.mp last
  obtain ⟨job', between, -⟩ := more.identity (drawn.trans_le run.nextUuid_le) there
  obtain ⟨was, start, kept⟩ := run.identity drawn between
  cases start.symm.trans stored
  exact ⟨job', between, (congrArg Identity.workflowId kept).trans member⟩

/-- Whatever calls are made between the pages, the traversal of a workflow lists its members in the order of their
identifiers, none twice, all that were members at its first page and are stored at its last, and each as it is stored at
its page. -/
theorem members_listed_once {visits : List (Env × System)} {answers : List (List WorkflowMember)}
    (along : Tour site allowed visits) (follows : Keyset.Follows (memberPages w n) none (visits.map glance) answers) :
    (answers.flatten.map (·.jobId)).Pairwise (· < ·) ∧
      (∀ v v', visits.head? = some v → visits.getLast? = some v' → ∀ id job, v.2.db.jobs.get? id = some job →
        job.workflowId = some w → (v'.2.db.jobs.get? id).isSome → id ∈ answers.flatten.map (·.jobId)) ∧
      List.Forall₂ (fun v items => ∀ i ∈ items, ∃ job, v.2.db.jobs.get? i.jobId = some job ∧ job.workflowId = some w ∧
        i = .of (i.jobId, job)) visits answers := by
  have answered : ∀ g ∈ visits.map glance, (1 ≤ n ∧ n ≤ 100) ∧
      ∃ r counts, g.2.workflows.get? w = some r ∧ g.2.memberCounts.get? w = some counts := by
    intro g member
    obtain ⟨c, a, answer⟩ := follows.answered g member
    obtain ⟨page, run, -⟩ := map_eq_ok.mp answer
    obtain ⟨limit, ⟨r, stored⟩, counted⟩ := getWorkflowPage_ok run
    exact ⟨limit, r, page.counts, stored, counted⟩
  have limit : 1 ≤ n ∧ n ≤ 100 := by
    cases eq : visits with
    | nil =>
      rw [eq] at follows
      cases follows
    | cons v rest => exact (answered (glance v) (by simp [eq])).1
  have positive : 0 < n.toNat := by omega
  obtain ⟨found, walk, rfl⟩ := follows.walk positive (memberPages_serves limit fun g member => (answered g member).2) rfl
  have sorted : ∀ rows ∈ (visits.map glance).map (membersSeen w), Keyset.Sorted Prod.fst rows := by
    intro rows member
    obtain ⟨g, -, rfl⟩ := List.mem_map.mp member
    exact membersSeen_sorted w g
  have fixed : Keyset.Fixed Prod.fst Prod.fst ((visits.map glance).map (membersSeen w)) := fun _ _ _ _ _ _ _ _ => Iff.rfl
  have ids : (found.map (·.map WorkflowMember.of)).flatten.map (·.jobId) = found.flatten.map (·.1) := by
    rw [← List.map_flatten, List.map_map]
    rfl
  rw [ids]
  refine ⟨List.pairwise_map.mpr (walk.ascends positive sorted).1, ?_, ?_⟩
  · intro v v' first last id job stored member there
    refine walk.misses_no_key positive sorted fixed ?_
    intro rows view
    rw [List.map_map] at view
    obtain ⟨u, between, rfl⟩ := List.mem_map.mp view
    have reachable := along.reachable v (List.mem_of_mem_head? first)
    obtain ⟨job', stored', member'⟩ := member_throughout reachable (along.first_run first u between)
      (along.last_run last u between) stored member there
    have seen : (id, job') ∈ membersSeen w (glance u) := mem_membersSeen.mpr ⟨stored', member'⟩
    exact List.mem_map.mpr ⟨_, seen, rfl⟩
  · have listed := walk.listed positive
    rw [List.forall₂_map_left_iff, List.forall₂_map_left_iff] at listed
    rw [List.forall₂_map_right_iff]
    refine listed.imp ?_
    intro v rows all i inside
    obtain ⟨e, here, rfl⟩ := List.mem_map.mp inside
    obtain ⟨stored, member⟩ := mem_membersSeen.mp (all e here)
    exact ⟨e.2, stored, member, rfl⟩

/-- A workflow with two members. -/
def twoMembers : List (Time × Command) :=
  [(0, .ensureQueue (some "q") none),
    (0, .createWorkflow (some "k") (some "batch") (some (.obj [])) (some ["q"]) (some "a")),
    (0, .enqueue { EnqueueArgs.simple "q" with workflowId := some 2, stepKey := some "one" }),
    (0, .enqueue { EnqueueArgs.simple "q" with workflowId := some 2, stepKey := some "two" })]

/-- One member is claimed between the two pages. -/
theorem members_listed_once_claimed : ∃ (visits : List (Env × System)) (answers : List (List WorkflowMember)),
    Keyset.Follows (memberPages 2 1) none (visits.map glance) answers ∧ answers.map (·.map (·.jobId)) = [[3], [4]] ∧
      (answers.flatten.map (·.jobId)).Pairwise (· < ·) ∧
      (∀ v v', visits.head? = some v → visits.getLast? = some v' → ∀ id job, v.2.db.jobs.get? id = some job →
        job.workflowId = some 2 → (v'.2.db.jobs.get? id).isSome → id ∈ answers.flatten.map (·.jobId)) ∧
      List.Forall₂ (fun v items => ∀ i ∈ items, ∃ job, v.2.db.jobs.get? i.jobId = some job ∧ job.workflowId = some 2 ∧
        i = .of (i.jobId, job)) visits answers := by
  have played : System.plays .hashing twoMembers (.installed .hashing 0) (fun s =>
      System.plays .hashing [(0, .claimJobs (.simple "q" 1))] s fun t =>
        (memberPages 2 1 (.reader, s.db) none).toOption.any fun p => p.1.map (·.jobId) = [3] && p.2.any fun c =>
          (memberPages 2 1 (.reader, t.db) (some c)).toOption.any fun p => p.1.map (·.jobId) = [4] && p.2.isNone) = true := by
    decide +kernel
  obtain ⟨s, run, rest⟩ := System.plays_run anyCall played fun _ _ _ => trivial
  obtain ⟨t, more, pages⟩ := System.plays_run anyCall rest fun _ _ _ => trivial
  simp only [Option.any_eq_true, Bool.and_eq_true, decide_eq_true_eq, toOption_eq_some, Option.isNone_iff_eq_none] at pages
  obtain ⟨⟨first, _⟩, page, ids, c, rfl, ⟨second, _⟩, page', ids', rfl⟩ := pages
  have follows : Keyset.Follows (memberPages 2 1) none ([(.reader, s), (.reader, t)].map glance) [first, second] :=
    .next page (.last page')
  refine ⟨_, _, follows, ?_, members_listed_once (Tour.two ⟨0, run⟩ more _ _) follows⟩
  simp only [List.map_cons, List.map_nil, ids, ids']

/-- The members with a status are counted in the listing. -/
theorem membersIn_eq_countP (jobs : Table Uuid Job) (w : Uuid) (status : JobStatus) :
    membersIn jobs w status = (jobs.selectBy (fun _ j => j.workflowId = some w) idLe).countP (·.2.status = status) := by
  have sorted : (jobs.selectBy (fun _ j => j.workflowId = some w) idLe).Perm (jobs.select fun _ j => j.workflowId = some w) :=
    List.perm_insertionSort _ _
  rw [membersIn, Table.count, sorted.countP_eq, List.countP_eq_length_filter, Table.select, Table.select, List.filter_filter]
  congr 2
  funext e
  simp [and_comm]

/-- While the members stay as they are, following the identifiers ends and lists each of them once, on pages that are full
but for the last; and the counts on every page are the numbers of members listed with each status. -/
theorem member_pages_end {r : Workflow} (reachable : System.Reachable site allowed s) (limit : 1 ≤ n ∧ n ≤ 100)
    (stored : s.db.workflows.get? w = some r) (sessions : ℕ → Env) :
    ∃ k answers, Keyset.Follows (memberPages w n) none ((List.range (k + 1)).map fun i => (sessions i, s.db)) answers ∧
      (∀ i, i ∈ answers.flatten ↔ ∃ job, s.db.jobs.get? i.jobId = some job ∧ job.workflowId = some w ∧ i = .of (i.jobId, job)) ∧
      (answers.flatten.map (·.jobId)).Pairwise (· < ·) ∧ (∀ items ∈ answers.dropLast, (items.length : ℤ) = n) ∧
      ∀ env after page, getWorkflowPage env (some w) (some n) after s.db = .ok page →
        ∀ status, page.counts.of status = answers.flatten.countP (·.status = status) := by
  have positive : 0 < n.toNat := by omega
  have members := reachable.sound.members
  obtain ⟨counts, counted⟩ : ∃ counts, s.db.memberCounts.get? w = some counts := by
    refine Option.ne_none_iff_exists'.mp ?_
    intro none'
    cases stored.symm.trans ((members.paired w).mp none')
  let rows := membersSeen w (sessions 0, s.db)
  have sorted : Keyset.Sorted Prod.fst rows := membersSeen_sorted w _
  obtain ⟨k, found, walk, all, full⟩ := Keyset.walks positive sorted none
  rw [Keyset.after_none] at all
  have listed : (found.map (·.map WorkflowMember.of)).flatten = rows.map .of := by rw [← List.map_flatten, all]
  refine ⟨k, found.map (·.map WorkflowMember.of), ?_, ?_, ?_, ?_, ?_⟩
  · refine Keyset.Walk.follows ?_ positive (memberPages_serves limit ?_) rfl
    · have same : ((List.range (k + 1)).map fun i => (sessions i, s.db)).map (membersSeen w) = List.replicate (k + 1) rows := by
        rw [List.map_map, List.eq_replicate_iff]
        refine ⟨by simp, ?_⟩
        intro row member
        obtain ⟨i, -, rfl⟩ := List.mem_map.mp member
        rfl
      rwa [same]
    · intro g member
      obtain ⟨i, -, rfl⟩ := List.mem_map.mp member
      exact ⟨r, counts, stored, counted⟩
  · intro i
    rw [listed, List.mem_map]
    constructor
    · rintro ⟨e, member, rfl⟩
      obtain ⟨here, belongs⟩ := mem_membersSeen.mp member
      exact ⟨e.2, here, belongs, rfl⟩
    · rintro ⟨job, here, belongs, own⟩
      exact ⟨(i.jobId, job), mem_membersSeen.mpr ⟨here, belongs⟩, own.symm⟩
  · rw [listed, List.map_map]
    exact List.pairwise_map.mpr sorted
  · intro items member
    rw [← List.map_dropLast] at member
    obtain ⟨page, inside, rfl⟩ := List.mem_map.mp member
    rw [List.length_map, full page inside]
    omega
  · intro env after page run status
    obtain ⟨-, -, own⟩ := getWorkflowPage_ok run
    cases own.symm.trans counted
    rw [members.counted w _ counted status, listed, List.countP_map, membersIn_eq_countP s.db.jobs w status]
    rfl

/-- Two queued members are counted and listed. -/
theorem member_pages_end_two : ∃ (s : System) (r : Workflow) (k : ℕ) (answers : List (List WorkflowMember)),
    s.db.workflows.get? 2 = some r ∧
    Keyset.Follows (memberPages 2 1) none ((List.range (k + 1)).map fun _ => (.reader, s.db)) answers ∧
      ∀ env after page, getWorkflowPage env (some 2) (some 1) after s.db = .ok page →
        page.counts.queued = answers.flatten.countP (·.status = .queued) := by
  have played : System.plays .hashing twoMembers (.installed .hashing 0) (fun s => (s.db.workflows.get? 2).isSome) = true := by
    decide +kernel
  obtain ⟨s, run, there⟩ := System.plays_run anyCall played fun _ _ _ => trivial
  obtain ⟨r, stored⟩ := Option.isSome_iff_exists.mp there
  have limit : 1 ≤ (1 : ℤ) ∧ (1 : ℤ) ≤ 100 := by decide
  obtain ⟨k, answers, follows, -, -, -, counts⟩ := member_pages_end ⟨0, run⟩ limit stored fun _ => .reader
  exact ⟨s, r, k, answers, stored, follows, fun env after page answer => counts env after page answer .queued⟩

end Members

end Taskq
