import Mathlib.Data.Prod.Lex
import Taskq.Invariants.Begun
import Taskq.Library.Keyset
import Taskq.Model.Listing

/-! The listings of the read model, followed from page to page. -/
namespace Taskq
open Relational

section Orders

theorem columnsLe_total : ∀ as bs : List (Option ℤ), columnsLe as bs = true ∨ columnsLe bs as = true
  | [], _ => .inl (by simp [columnsLe])
  | _ :: _, [] => .inr (by simp [columnsLe])
  | none :: as, none :: bs => by simpa only [columnsLe] using columnsLe_total as bs
  | none :: _, some _ :: _ => .inr rfl
  | some _ :: _, none :: _ => .inl rfl
  | some a :: as, some b :: bs => by
    simp only [columnsLe]
    obtain below | rfl | above := lt_trichotomy a b
    · simp [below.ne, below]
    · simpa using columnsLe_total as bs
    · simp [above.ne, above]

theorem columnsLe_antisymm : ∀ as bs : List (Option ℤ), columnsLe as bs = true → columnsLe bs as = true → as = bs
  | [], [], _, _ => rfl
  | [], _ :: _, _, back => nomatch back
  | _ :: _, [], forth, _ => nomatch forth
  | none :: as, none :: bs, forth, back => congrArg (none :: ·) (columnsLe_antisymm as bs forth back)
  | none :: _, some _ :: _, forth, _ => nomatch forth
  | some _ :: _, none :: _, _, back => nomatch back
  | some a :: as, some b :: bs, forth, back => by
    simp only [columnsLe] at forth back
    by_cases same : a = b
    · subst same
      simp only [if_true] at forth back
      rw [columnsLe_antisymm as bs forth back]
    · rw [if_neg same, decide_eq_true_eq] at forth
      rw [if_neg (Ne.symm same), decide_eq_true_eq] at back
      omega

theorem columnsLe_trans : ∀ as bs cs : List (Option ℤ), columnsLe as bs = true → columnsLe bs cs = true → columnsLe as cs = true
  | [], _, _, _, _ => by simp [columnsLe]
  | _ :: _, [], _, first, _ => nomatch first
  | _ :: _, _ :: _, [], _, second => nomatch second
  | none :: as, none :: bs, none :: cs, first, second => columnsLe_trans as bs cs first second
  | none :: _, none :: _, some _ :: _, _, second => nomatch second
  | none :: _, some _ :: _, _, first, _ => nomatch first
  | some _ :: _, _, none :: _, _, _ => rfl
  | some _ :: _, none :: _, some _ :: _, _, second => nomatch second
  | some a :: as, some b :: bs, some c :: cs, first, second => by
    simp only [columnsLe] at first second ⊢
    have rest := columnsLe_trans as bs cs
    grind

variable {v : JobView} {r r' : Uuid × Job} {env : Env} {queue : String}

/-- Columns that tell rows apart order them. -/
theorem columns_order {ρ : Type} (columns : Uuid × ρ → List (Option ℤ)) (key : ∀ a b, columns a = columns b → a.1 = b.1)
    (descends : Bool) : Table.RowOrder fun a b =>
      if descends then columnsLe (columns b) (columns a) else columnsLe (columns a) (columns b) where
  total a b := by
    split_ifs
    · exact columnsLe_total _ _
    · exact columnsLe_total _ _
  trans a b c first second := by
    split_ifs at first second ⊢
    · exact columnsLe_trans _ _ _ second first
    · exact columnsLe_trans _ _ _ first second
  key a b forth back := by
    apply key
    split_ifs at forth back
    · exact columnsLe_antisymm _ _ back forth
    · exact columnsLe_antisymm _ _ forth back

theorem JobView.le_order (v : JobView) : Table.RowOrder v.le := by
  refine columns_order v.columnsOf ?_ v.descends
  intro a b same
  simp only [JobView.columnsOf, JobView.columns] at same
  split_ifs at same <;> simp_all

/-- Where a row stands in a view. -/
def JobView.spot (v : JobView) (r : Uuid × Job) : ℤ ×ₗ ℤ ×ₗ ℤ :=
  let time := (v.time r.2.toJobRow).getD 0
  if v.descends then toLex (0, toLex (-time, -(r.1 : ℤ)))
  else toLex (if v = .ready then r.2.priority else 0, toLex (time, (r.1 : ℤ)))

/-- The row has a value in the column that orders the view. -/
def JobView.Timed (v : JobView) (r : Uuid × Job) : Prop := (v.time r.2.toJobRow).isSome

theorem columnsLe_cons {a b : ℤ} {as bs : List (Option ℤ)} :
    columnsLe (some a :: as) (some b :: bs) = true ↔ a < b ∨ a = b ∧ columnsLe as bs = true := by
  simp only [columnsLe]
  split_ifs with same
  · simp [same]
  · simp [same]

theorem rowLt_cons {a b : ℤ} {as bs : List (Option ℤ)} :
    rowLt (some a :: as) (some b :: bs) = true ↔ a < b ∨ a = b ∧ rowLt as bs = true := by
  simp only [rowLt]
  split_ifs with same
  · simp [same]
  · simp [same]

/-- One column alone. -/
theorem columns_single {a b : ℤ} : (columnsLe [some a] [some b] = true ↔ a ≤ b) ∧ (rowLt [some a] [some b] = true ↔ a < b) := by
  constructor
  · rw [columnsLe_cons, le_iff_lt_or_eq]
    simp [columnsLe]
  · rw [rowLt_cons]
    simp [rowLt]

theorem JobView.le_iff_spot (timed : v.Timed r) (timed' : v.Timed r') : v.le r r' = true ↔ v.spot r ≤ v.spot r' := by
  obtain ⟨t, at'⟩ := Option.isSome_iff_exists.mp timed
  obtain ⟨t', at''⟩ := Option.isSome_iff_exists.mp timed'
  cases v
  all_goals
    simp only [JobView.le, JobView.spot, JobView.columnsOf, JobView.columns, JobView.descends, at', at'',
      Prod.Lex.toLex_le_toLex, if_true, if_false, Bool.false_eq_true, reduceCtorEq, Option.map_some, List.nil_append,
      List.singleton_append, columnsLe_cons, columns_single.1, Option.getD_some, lt_irrefl, false_or, true_and,
      neg_lt_neg_iff, neg_le_neg_iff, neg_inj]
  all_goals
    omega

/-- The cursor of a row after its casts. -/
def JobCursor.of (v : JobView) (r : Uuid × Job) : JobCursor :=
  ⟨if v = .ready then some r.2.priority else none, v.time r.2.toJobRow, some r.1⟩

theorem JobCursor.before_iff_spot (timed : v.Timed r) (timed' : v.Timed r') :
    (JobCursor.of v r).before v r' = true ↔ v.spot r < v.spot r' := by
  obtain ⟨t, at'⟩ := Option.isSome_iff_exists.mp timed
  obtain ⟨t', at''⟩ := Option.isSome_iff_exists.mp timed'
  cases v
  all_goals
    simp only [JobCursor.before, JobCursor.of, JobView.spot, JobView.columnsOf, JobView.columns, JobView.descends, at', at'',
      Prod.Lex.toLex_lt_toLex, if_true, if_false, Bool.false_eq_true, reduceCtorEq, Option.map_some, List.nil_append,
      List.singleton_append, rowLt_cons, columns_single.2, Option.getD_some, lt_irrefl, false_or, true_and,
      neg_lt_neg_iff, neg_inj]
  all_goals
    omega

end Orders

section Cursors

variable {v : JobView} {r : Uuid × Job} {env env' : Env} {queue : String} {view : Option String}

/-- A session reads the texts that another writes into the cursor of a row. -/
structure JobView.Reads (v : JobView) (env' env : Env) (r : Uuid × Job) : Prop where
  id : env'.parseUuid (Uuid.text r.1) = some r.1
  time : ∀ t, v.time r.2.toJobRow = some t → env'.parseTime (env.timeText t) = some t
  priority : env'.parseInt (Jsonb.ofInt r.2.priority).text = some r.2.priority

/-- A view that the function knows, or none. -/
def KnownView (view : Option String) : Prop := view.all (fun v => (JobView.ofText? v).isSome) = true

theorem Jsonb.hasKey_iff {j : Jsonb} {k : String} : j.hasKey k = true ↔ (j.field? k).isSome = true := by
  simp [Jsonb.hasKey, Jsonb.field?, List.find?_isSome]

theorem castText_of {α : Type} {cast : String → Option α} {spec value : Jsonb} {key text : String} {a : α}
    (field : spec.field? key = some value) (scalar : value.scalarText? = some text) (casts : cast text = some a) :
    castText cast spec key = .ok (some a) := by
  simp [castText, Jsonb.fieldText?, field, scalar, casts]

/-- What a cursor holds. -/
theorem jobCursor_fields (env : Env) (queue : String) (view : Option String) (r : Uuid × Job) :
    (jobCursor env queue view r).field? "queue" = some (.str queue) ∧
    (jobCursor env queue view r).field? "view" = some (.ofText? view) ∧
    (jobCursor env queue view r).field? "id" = some (.str r.1.text) ∧
    (jobCursor env queue view r).field? (JobView.branch view).timeKey =
      some (timeJson env ((JobView.branch view).time r.2.toJobRow)) ∧
    (JobView.branch view = .ready → (jobCursor env queue view r).field? "priority" = some (.ofInt r.2.priority)) := by
  unfold jobCursor
  generalize JobView.branch view = v
  simp only [Jsonb.field?_build]
  cases v <;> simp [JobView.timeKey]

theorem Job.priority_small (job : Job) : -32768 ≤ job.priority ∧ job.priority ≤ 32767 := by
  have checks := job.checks
  simp only [JobRow.checksOk, JobRow.columnsOk, Bool.and_eq_true, decide_eq_true_eq] at checks
  omega

theorem castJobCursor_own (reads : (JobView.branch view).Reads env' env r) (timed : (JobView.branch view).Timed r) :
    castJobCursor env' (JobView.branch view) (jobCursor env queue view r) = .ok (.of (JobView.branch view) r) := by
  obtain ⟨-, -, id, time, priority⟩ := jobCursor_fields env queue view r
  obtain ⟨t, at'⟩ := Option.isSome_iff_exists.mp timed
  have id' := castText_of id rfl reads.id
  have time' : castText env'.parseTime (jobCursor env queue view r) (JobView.branch view).timeKey = .ok (some t) := by
    refine castText_of time ?_ (reads.time t at')
    rw [at']
    rfl
  unfold castJobCursor JobCursor.of
  rw [id', at']
  by_cases ready : JobView.branch view = .ready
  · have number := castText_of (priority ready) rfl reads.priority
    have small : int2 r.2.priority = .ok r.2.priority := int2_eq_ok.mpr ⟨r.2.priority_small, rfl⟩
    have cast : castJobCursor.castSmallint env' (jobCursor env queue view r) "priority" = .ok (some r.2.priority) := by
      rw [castJobCursor.castSmallint, number]
      change (do let n ← int2 r.2.priority; Except.ok (some n)) = _
      rw [small]
      rfl
    rw [ready] at time'
    simp only [ready, if_true, cast, time']
    rfl
  · simp only [ready, if_false, time']
    rfl

/-- A session takes the cursors that another session of the server gave for the same queue and view. -/
theorem readJobCursor_own (reads : (JobView.branch view).Reads env' env r) (timed : (JobView.branch view).Timed r) :
    readJobCursor env' queue view (jobCursor env queue view r) = .ok (.of (JobView.branch view) r) := by
  obtain ⟨queue', view', id, time, priority⟩ := jobCursor_fields env queue view r
  have named : (Jsonb.ofText? view).scalarText? = view := by cases view <;> rfl
  simp only [readJobCursor, seq_eq_ok, ensure_eq_ok, castJobCursor_own reads timed]
  refine ⟨(), ⟨rfl, ?_, ?_, ?_, ?_⟩, rfl⟩
  · simp [Jsonb.fieldText?, queue', Jsonb.scalarText?]
  · simp [Jsonb.fieldText?, view', named]
  · simp [Jsonb.hasKey_iff, id]
  · intro _
    exact ⟨fun ready => by simp [Jsonb.hasKey_iff, priority ready], by simp [Jsonb.hasKey_iff, time]⟩

/-- A cursor that was given for another queue or view is refused, whatever the state. -/
theorem listJobs_other {queue' : String} {view' : Option String} {limit : Option ℤ} {db : Db}
    (other : queue' ≠ queue ∨ view' ≠ view) (named : isQueueName queue' = true) (known : KnownView view')
    (bounded : pageLimitOk limit = true) :
    listJobs env' (some queue') view' limit (some (jobCursor env queue view r)) db =
      .error (tq422 "cursor does not match queue/view") := by
  obtain ⟨own, own', -⟩ := jobCursor_fields env queue view r
  have given : (Jsonb.ofText? view).scalarText? = view := by cases view <;> rfl
  have apart : ¬((jobCursor env queue view r).fieldText? "queue" = some queue' ∧
      (jobCursor env queue view r).fieldText? "view" = view') := by
    rw [Jsonb.fieldText?, own, Jsonb.fieldText?, own', Option.bind_some, Option.bind_some, given]
    rintro ⟨same, rfl⟩
    obtain rfl := Option.some.inj same
    exact other.elim (absurd rfl) (absurd rfl)
  have refused : readJobCursor env' queue' view' (jobCursor env queue view r) =
      .error (tq422 "cursor does not match queue/view") := by
    unfold readJobCursor
    dsimp only
    rw [ensure, if_neg]
    · rfl
    · rintro ⟨-, here, there, -⟩
      exact apart ⟨here, there⟩
  have arguments : ensure ((some queue').any isQueueName ∧ view'.all (fun v => (JobView.ofText? v).isSome) ∧ pageLimitOk limit)
      (tq422 "invalid read model page input") = .ok () := ensure_eq_ok.mpr ⟨named, known, bounded⟩
  simp only [listJobs, arguments, Option.getD_some, Option.elim_some, refused]
  rfl

end Cursors

section Pages

variable {v : JobView} {r : Uuid × Job} {env : Env} {queue : String} {view : Option String} {n : ℤ} {db : Db}

/-- One row more than fits on the page tells whether another follows. -/
theorem cutPage_page {α P : Type} [LinearOrder P] {n : ℤ} (positive : 0 ≤ n) (pos : α → P) (c : Option P) (rows : List α) :
    cutPage n ((Keyset.after pos c rows).take (n.toNat + 1)) = Keyset.page pos n.toNat c rows := by
  have counts : n < (((Keyset.after pos c rows).take (n.toNat + 1)).length : ℤ) ↔ n.toNat < (Keyset.after pos c rows).length := by
    rw [List.length_take]
    omega
  unfold cutPage Keyset.page
  by_cases more : n.toNat < (Keyset.after pos c rows).length
  · rw [if_pos (counts.mpr more), if_pos more, List.take_take, min_eq_left (Nat.le_succ _)]
  · rw [if_neg (mt counts.mp more), if_neg more, List.take_of_length_le (by omega)]

/-- The rows of a view, in its order. -/
def jobsSeen (queue : String) (view : Option String) (g : Env × Db) : List (Uuid × Job) :=
  g.2.jobs.selectBy (fun _ j => (JobView.branch view).selects g.1 queue j.toJobRow) (JobView.branch view).le

theorem mem_jobsSeen {g : Env × Db} : r ∈ jobsSeen queue view g ↔ g.2.jobs.get? r.1 = some r.2 ∧
    (JobView.branch view).selects g.1 queue r.2.toJobRow = true := Table.mem_selectBy

/-- All rows of the view have the time that orders it. -/
def AllTimed (queue : String) (view : Option String) (g : Env × Db) : Prop :=
  ∀ r ∈ jobsSeen queue view g, (JobView.branch view).Timed r

theorem jobsSeen_sorted {g : Env × Db} (timed : AllTimed queue view g) :
    Keyset.Sorted (JobView.branch view).spot (jobsSeen queue view g) := by
  refine Keyset.sorted_selectBy (JobView.branch view).le_order ?_
  intro a here b there
  exact JobView.le_iff_spot (timed a here) (timed b there)

/-- The arguments that `list_jobs` takes. -/
structure ListsJobs (queue : String) (view : Option String) (n : ℤ) : Prop where
  queue : isQueueName queue = true
  view : KnownView view
  limit : 1 ≤ n ∧ n ≤ 100

/-- Where a cursor leads on in the view. -/
def Leads (glances : Set (Env × Db)) (queue : String) (view : Option String) (cursor : Option Jsonb)
    (spot : Option (ℤ ×ₗ ℤ ×ₗ ℤ)) : Prop :=
  cursor = none ∧ spot = none ∨ ∃ g ∈ glances, ∃ r ∈ jobsSeen queue view g, (JobView.branch view).Timed r ∧
    cursor = some (jobCursor g.1 queue view r) ∧ spot = some ((JobView.branch view).spot r)

theorem JobCursor.after_eq (spot : Option (Uuid × Job)) {g : Env × Db} (timed : AllTimed queue view g)
    (timed' : ∀ r, spot = some r → (JobView.branch view).Timed r) :
    g.2.jobs.selectBy (fun id j => (JobView.branch view).selects g.1 queue j.toJobRow &&
        (spot.map (JobCursor.of (JobView.branch view))).all (·.before (JobView.branch view) (id, j))) (JobView.branch view).le =
      Keyset.after (JobView.branch view).spot (spot.map (JobView.branch view).spot) (jobsSeen queue view g) := by
  refine Keyset.selectBy_after (JobView.branch view).le_order ?_
  intro r member
  cases spot with
  | none => simp
  | some last =>
    simp only [Option.map_some, Option.all_some, Option.some.injEq, forall_eq']
    exact JobCursor.before_iff_spot (timed' last rfl) (timed r member)

/-- With arguments in range a call gives the page of its rows after the cursor, and the cursor of the last row. -/
theorem listJobs_page {glances : Set (Env × Db)} {g : Env × Db} {cursor : Option Jsonb} {spot : Option (ℤ ×ₗ ℤ ×ₗ ℤ)}
    (lists : ListsJobs queue view n) (known : (g.2.queues.get? queue).isSome) (timed : AllTimed queue view g)
    (reads : ∀ g' ∈ glances, ∀ r ∈ jobsSeen queue view g', (JobView.branch view).Reads g.1 g'.1 r) (leads : Leads glances queue view cursor spot) :
    (listJobs g.1 (some queue) view (some n) cursor g.2).map (fun page => (page.items, page.nextAfter)) =
      .ok ((Keyset.page (JobView.branch view).spot n.toNat spot (jobsSeen queue view g)).1.map .of,
        (Keyset.page (JobView.branch view).spot n.toNat spot (jobsSeen queue view g)).2.map (jobCursor g.1 queue view)) := by
  obtain ⟨last, casts, rfl, timed'⟩ : ∃ last : Option (Uuid × Job),
      (cursor.elim (.ok none) fun c => (readJobCursor g.1 queue view c).map some) = .ok (last.map (JobCursor.of (JobView.branch view))) ∧
      last.map (JobView.branch view).spot = spot ∧ ∀ r, last = some r → (JobView.branch view).Timed r := by
    obtain ⟨rfl, rfl⟩ | ⟨g', member, r, seen, timed', rfl, rfl⟩ := leads
    · exact ⟨none, rfl, rfl, by rintro r ⟨⟩⟩
    · refine ⟨some r, ?_, rfl, ?_⟩
      · rw [Option.elim_some, readJobCursor_own (reads g' member r seen) timed']
        rfl
      · rintro _ ⟨⟩
        exact timed'
  have arguments : ensure ((some queue).any isQueueName ∧ view.all (fun v => (JobView.ofText? v).isSome) ∧
      pageLimitOk (some n)) (tq422 "invalid read model page input") = .ok () := by
    apply ensure_eq_ok.mpr
    exact ⟨lists.queue, lists.view, by simpa [pageLimitOk] using lists.limit⟩
  have there : ensure ((g.2.queues.get? queue).isSome) (SqlError.mk' .tq001 "queue not found") = .ok () :=
    ensure_eq_ok.mpr known
  have positive : 0 ≤ n := by
    have := lists.limit.1
    omega
  have rows := JobCursor.after_eq last timed timed'
  simp only [listJobs, arguments, Option.getD_some, casts, there, bind, Except.bind, rows, cutPage_page positive]
  rfl

/-- The pages of a view that sessions list, with the cursors that lead on. -/
def jobPages (queue : String) (view : Option String) (n : ℤ) (g : Env × Db) (cursor : Option Jsonb) :
    Call (List JobListItem × Option Jsonb) :=
  (listJobs g.1 (some queue) view (some n) cursor g.2).map fun page => (page.items, page.nextAfter)

theorem jobPages_ok {g : Env × Db} {cursor : Option Jsonb} {page : List JobListItem × Option Jsonb}
    (run : jobPages queue view n g cursor = .ok page) : ListsJobs queue view n ∧ (g.2.queues.get? queue).isSome := by
  obtain ⟨answer, run, -⟩ := map_eq_ok.mp run
  simp only [listJobs, seq_eq_ok, ensure_eq_ok, Option.getD_some] at run
  obtain ⟨-, ⟨named, known, limit⟩, _, -, -, there, -⟩ := run
  exact ⟨⟨named, known, by simpa [pageLimitOk] using limit⟩, there⟩

/-- In every view but that of the running jobs the shape of the rows gives the time; there it is the invariant. -/
theorem AllTimed.of_begun {g : Env × Db} (begun : g.2.Begun) : AllTimed queue view g := by
  rintro ⟨id, job⟩ member
  obtain ⟨stored, selected⟩ := mem_jobsSeen.mp member
  unfold JobView.Timed
  generalize JobView.branch view = v at selected ⊢
  cases v with
  | ready | scheduled | blocked => rfl
  | running =>
    simp only [JobView.selects, Bool.and_eq_true, decide_eq_true_eq] at selected
    exact begun id job stored selected.2
  | cancelRequested =>
    simp only [JobView.selects, Bool.and_eq_true] at selected
    exact selected.1.2
  | failed =>
    simp only [JobView.selects, Bool.and_eq_true, decide_eq_true_eq] at selected
    exact job.terminal_iff.mp (by rw [selected.2]; rfl)
  | finished =>
    simp only [JobView.selects, Bool.and_eq_true, Bool.or_eq_true, decide_eq_true_eq] at selected
    refine job.terminal_iff.mp ?_
    obtain ⟨-, (is | is) | is⟩ := selected
    all_goals
      rw [is]
      rfl

/-- Sessions that look at reachable states of an installation and read each other's cursors. -/
structure Sessions (site : Site) (allowed : System → Env → Command → Prop) (queue : String) (view : Option String)
    (glances : Set (Env × Db)) : Prop where
  reachable : ∀ g ∈ glances, ∃ s, System.Reachable site allowed s ∧ s.db = g.2
  reads : ∀ g ∈ glances, ∀ g' ∈ glances, ∀ r ∈ jobsSeen queue view g', (JobView.branch view).Reads g.1 g'.1 r

variable {site : Site} {allowed : System → Env → Command → Prop}

theorem Sessions.timed {glances : Set (Env × Db)} (sessions : Sessions site allowed queue view glances) {g : Env × Db} (member : g ∈ glances) :
    AllTimed queue view g := by
  obtain ⟨s, reachable, same⟩ := sessions.reachable g member
  exact .of_begun (same ▸ reachable.begun)

theorem jobPages_serves {states : List (Env × Db)} {glances : Set (Env × Db)} (lists : ListsJobs queue view n)
    (sessions : Sessions site allowed queue view glances) (inside : ∀ g ∈ states, g ∈ glances ∧ (g.2.queues.get? queue).isSome) :
    Keyset.Serves (jobPages queue view n) (JobView.branch view).spot n.toNat (jobsSeen queue view) JobListItem.of
      (fun g => jobCursor g.1 queue view) (Leads glances queue view) states := by
  constructor
  · intro g member cursor spot leads
    obtain ⟨here, known⟩ := inside g member
    exact listJobs_page lists known (sessions.timed here) (sessions.reads g here) leads
  · intro g member r seen
    obtain ⟨here, -⟩ := inside g member
    exact .inr ⟨g, here, r, seen, sessions.timed here r seen, rfl, rfl⟩

/-- Whoever follows the cursors of a view through any states meets its rows in their order: no place in the view is listed
twice, each row was in the view when its page was taken, and a row that keeps its place throughout is listed. -/
theorem listings_find_all {glances : List (Env × Db)} {answers : List (List JobListItem)}
    (sessions : Sessions site allowed queue view {g | g ∈ glances}) (follows : Keyset.Follows (jobPages queue view n) none glances answers) :
    ∃ found : List (List (Uuid × Job)), answers = found.map (·.map JobListItem.of) ∧
      List.Forall₂ (fun g rows => ∀ r ∈ rows, r ∈ jobsSeen queue view g) glances found ∧
      Keyset.Sorted (JobView.branch view).spot found.flatten ∧
      ∀ p, (∀ g ∈ glances, p ∈ (jobsSeen queue view g).map (JobView.branch view).spot) →
        p ∈ found.flatten.map (JobView.branch view).spot := by
  have answered : ∀ g ∈ glances, ListsJobs queue view n ∧ (g.2.queues.get? queue).isSome := by
    intro g member
    obtain ⟨_, _, answer⟩ := follows.answered g member
    exact jobPages_ok answer
  have lists : ListsJobs queue view n := by
    cases follows with
    | last | next => exact (answered _ List.mem_cons_self).1
  have positive : 0 < n.toNat := by
    have := lists.limit.1
    omega
  have serves := jobPages_serves lists sessions fun g member => ⟨member, (answered g member).2⟩
  obtain ⟨found, walk, same⟩ := follows.walk positive serves (.inl ⟨rfl, rfl⟩)
  have sorted : ∀ rows ∈ glances.map (jobsSeen queue view), Keyset.Sorted (JobView.branch view).spot rows := by
    intro rows member
    obtain ⟨g, here, rfl⟩ := List.mem_map.mp member
    exact jobsSeen_sorted (sessions.timed here)
  refine ⟨found, same, List.forall₂_map_left_iff.mp (walk.listed positive), (walk.ascends positive sorted).1, ?_⟩
  intro p there
  refine walk.misses_none positive sorted ?_ (fun _ none' => nomatch none')
  intro rows member
  obtain ⟨g, here, rfl⟩ := List.mem_map.mp member
  exact there g here

/-- A session that reads the first identifiers, and instants written in digits. -/
def Env.reader : Env := { Env.alone .digits 0 9 with
  parseUuid := fun s => (List.range 9).find? fun u => Uuid.text u = s, parseTime := readDigits }

/-- It reads its own cursors. -/
def readsOwn (queue : String) (view : Option String) (db : Db) : Bool :=
  (jobsSeen queue view (.reader, db)).all fun r => Env.reader.parseUuid (Uuid.text r.1) = some r.1 &&
    ((JobView.branch view).time r.2.toJobRow).all (fun t => Env.reader.parseTime (Env.reader.timeText t) = some t) &&
    Env.reader.parseInt (Jsonb.ofInt r.2.priority).text = some r.2.priority

theorem reads_of_readsOwn {db : Db} (own : readsOwn queue view db = true) :
    ∀ r ∈ jobsSeen queue view (.reader, db), (JobView.branch view).Reads .reader .reader r := by
  intro r member
  have read := List.all_eq_true.mp own r member
  simp only [Bool.and_eq_true, decide_eq_true_eq, Option.all_eq_true] at read
  exact ⟨read.1.1, fun t at' => read.1.2 t at', read.2⟩

/-- A third job comes between the first page and the second. -/
theorem listings_find_all_growing : ∃ (glances : List (Env × Db)) (answers : List (List JobListItem)),
    Keyset.Follows (jobPages "q" (some "ready") 1) none glances answers ∧ answers.map (·.map (·.jobId)) = [[2], [3], [4]] ∧
    ∃ found : List (List (Uuid × Job)), answers = found.map (·.map JobListItem.of) ∧
      List.Forall₂ (fun g rows => ∀ r ∈ rows, r ∈ jobsSeen "q" (some "ready") g) glances found ∧
      Keyset.Sorted JobView.ready.spot found.flatten ∧
      ∀ p, (∀ g ∈ glances, p ∈ (jobsSeen "q" (some "ready") g).map JobView.ready.spot) →
        p ∈ found.flatten.map JobView.ready.spot := by
  have played : System.plays .digits [(0, .ensureQueue (some "q") none), (0, .enqueue (.simple "q")),
      (0, .enqueue (.simple "q"))] (.installed .digits 0) (fun s => readsOwn "q" (some "ready") s.db &&
        System.plays .digits [(0, .enqueue (.simple "q"))] s fun t => readsOwn "q" (some "ready") t.db &&
          (jobPages "q" (some "ready") 1 (.reader, s.db) none).toOption.any fun p =>
            p.1.map (·.jobId) = [2] && p.2.any fun c => (jobPages "q" (some "ready") 1 (.reader, t.db) (some c)).toOption.any
              fun p => p.1.map (·.jobId) = [3] && p.2.any fun c =>
                (jobPages "q" (some "ready") 1 (.reader, t.db) (some c)).toOption.any fun p =>
                  p.1.map (·.jobId) = [4] && p.2.isNone) = true := by
    decide +kernel
  obtain ⟨s, run, there⟩ := System.plays_run anyCall played fun _ _ _ => trivial
  obtain ⟨own, rest⟩ := (Bool.and_eq_true _ _).mp there
  obtain ⟨t, more, there⟩ := System.plays_run anyCall rest fun _ _ _ => trivial
  obtain ⟨own', pages⟩ := (Bool.and_eq_true _ _).mp there
  simp only [Option.any_eq_true, Bool.and_eq_true, decide_eq_true_eq, toOption_eq_some, Option.isNone_iff_eq_none] at pages
  obtain ⟨⟨first, _⟩, page, ids, c, rfl, ⟨second, _⟩, page', ids', c', rfl, ⟨third, _⟩, page'', ids'', rfl⟩ := pages
  have follows : Keyset.Follows (jobPages "q" (some "ready") 1) none [(.reader, s.db), (.reader, t.db), (.reader, t.db)]
      [first, second, third] :=
    .next page (.next page' (.last page''))
  have sessions : Sessions .digits anyCall "q" (some "ready")
      {g | g ∈ [((.reader : Env), s.db), (.reader, t.db), (.reader, t.db)]} := by
    constructor
    · intro g member
      simp only [List.mem_cons, List.not_mem_nil, or_false, or_self, Set.mem_ofPred_eq] at member
      obtain rfl | rfl := member
      · exact ⟨s, ⟨0, run⟩, rfl⟩
      · exact ⟨t, ⟨0, run.trans more⟩, rfl⟩
    · intro g member g' member'
      simp only [List.mem_cons, List.not_mem_nil, or_false, or_self, Set.mem_ofPred_eq] at member member'
      obtain rfl | rfl := member <;> obtain rfl | rfl := member'
      all_goals
        first
        | exact reads_of_readsOwn own
        | exact reads_of_readsOwn own'
  refine ⟨_, _, follows, ?_, listings_find_all sessions follows⟩
  simp only [List.map_cons, List.map_nil, ids, ids', ids'']

/-- While the rows of a view stay as they are, following the cursors ends and lists each of them once, in the order of the
view, on pages that are full but for the last. -/
theorem listings_end {glances : ℕ → Env × Db} {rows : List (Uuid × Job)} (lists : ListsJobs queue view n)
    (sessions : Sessions site allowed queue view (Set.range glances)) (known : ∀ k, ((glances k).2.queues.get? queue).isSome)
    (rest : ∀ k, jobsSeen queue view (glances k) = rows) :
    ∃ k answers, Keyset.Follows (jobPages queue view n) none ((List.range (k + 1)).map glances) answers ∧
      answers.flatten = rows.map JobListItem.of ∧ ∀ items ∈ answers.dropLast, (items.length : ℤ) = n := by
  have positive : 0 < n.toNat := by
    have := lists.limit.1
    omega
  have sorted : Keyset.Sorted (JobView.branch view).spot rows := rest 0 ▸ jobsSeen_sorted (sessions.timed ⟨0, rfl⟩)
  obtain ⟨k, found, walk, all, full⟩ := Keyset.walks positive sorted none
  refine ⟨k, found.map (·.map JobListItem.of), ?_, ?_, ?_⟩
  · refine Keyset.Walk.follows ?_ positive (jobPages_serves lists sessions ?_) (.inl ⟨rfl, rfl⟩)
    · have same : ((List.range (k + 1)).map glances).map (jobsSeen queue view) = List.replicate (k + 1) rows := by
        rw [List.map_map, List.eq_replicate_iff]
        refine ⟨by simp, ?_⟩
        intro row member
        obtain ⟨i, -, rfl⟩ := List.mem_map.mp member
        exact rest i
      rwa [same]
    · intro g member
      obtain ⟨i, -, rfl⟩ := List.mem_map.mp member
      exact ⟨⟨i, rfl⟩, known i⟩
  · rw [← List.map_flatten, all, Keyset.after_none]
  · intro items member
    rw [← List.map_dropLast] at member
    obtain ⟨page, inside, rfl⟩ := List.mem_map.mp member
    rw [List.length_map, full page inside]
    have := lists.limit.1
    omega

/-- Two jobs at rest are listed on pages of one. -/
theorem listings_end_two : ∃ (db : Db) (rows : List (Uuid × Job)), rows.map (·.1) = [2, 3] ∧
    ∃ k answers, Keyset.Follows (jobPages "q" (some "ready") 1) none ((List.range (k + 1)).map fun _ => (.reader, db)) answers ∧
      answers.flatten = rows.map JobListItem.of ∧ ∀ items ∈ answers.dropLast, (items.length : ℤ) = 1 := by
  have played : System.plays .digits [(0, .ensureQueue (some "q") none), (0, .enqueue (.simple "q")),
      (0, .enqueue (.simple "q"))] (.installed .digits 0) (fun s => readsOwn "q" (some "ready") s.db &&
        (jobsSeen "q" (some "ready") (.reader, s.db)).map (·.1) = [2, 3] && (s.db.queues.get? "q").isSome) = true := by
    decide +kernel
  obtain ⟨s, run, there⟩ := System.plays_run anyCall played fun _ _ _ => trivial
  simp only [Bool.and_eq_true, decide_eq_true_eq] at there
  obtain ⟨⟨own, ids⟩, known⟩ := there
  have sessions : Sessions .digits anyCall "q" (some "ready") (Set.range fun _ : ℕ => ((.reader : Env), s.db)) := by
    constructor
    · rintro _ ⟨_, rfl⟩
      exact ⟨s, ⟨0, run⟩, rfl⟩
    · rintro _ ⟨_, rfl⟩ _ ⟨_, rfl⟩
      exact reads_of_readsOwn own
  have lists : ListsJobs "q" (some "ready") 1 := ⟨by decide, by unfold KnownView; decide, by decide⟩
  exact ⟨s.db, _, ids, listings_end lists sessions (fun _ => known) fun _ => rfl⟩

end Pages

end Taskq
