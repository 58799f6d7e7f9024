import Taskq.Claiming.Replays

/-! The cap of a concurrency key: however claims and other calls interleave, a claim starts a job of the key
only under the key's advisory lock and below the cap that it then reads. -/
namespace Taskq
open Relational

theorem runningWithKey_eq (core : Core) (key : String) :
    runningWithKey core key = runningOf (fun j => j.concurrencyKey = some key) core := by
  simp [runningWithKey, runningOf, Bool.decide_and]

theorem keyed_fixed (key : String) : Fixed fun j => j.concurrencyKey = some key := by
  intro a b same
  have : a.concurrencyKey = b.concurrencyKey := congrArg Identity.concurrencyKey same
  simp [this]

/-- The jobs of a concurrency key that a transaction has started. -/
def Session.carries (s : Session) (key : String) : ℕ :=
  s.started.countP fun e => e.2.concurrencyKey = some key

/-- The candidate that a transaction has in hand. -/
def Phase.candidate : Phase → Option (Uuid × Job)
  | .picked id job | .cleared id job => some (id, job)
  | _ => none

/-- What a claim transaction has started still waits for everybody else, under its locks, and fits the caps
that it found. -/
structure Session.Ok (db : Db) (s : Session) : Prop where
  waiting : Waiting db s.started
  rows : ∀ e ∈ s.started, e.1 ∈ s.rows
  locks : ∀ e ∈ s.started, ∀ key, e.2.concurrencyKey = some key → "taskq.ck:" ++ key ∈ s.locks
  caps : ∀ key, 0 < s.carries key → ∃ cap, s.caps.get? key = some cap ∧
    (runningWithKey db.toCore key + s.carries key : ℤ) ≤ cap
  held : ∀ e, s.phase.candidate = some e → e.1 ∈ s.rows ∧ db.jobs.get? e.1 = some e.2 ∧
    e.2.status = .queued ∧ e.1 ∉ s.started.map Prod.fst
  cleared : ∀ id job key, s.phase = .cleared id job → job.concurrencyKey = some key →
    "taskq.ck:" ++ key ∈ s.locks ∧ ∃ cap, s.caps.get? key = some cap ∧
      (runningWithKey db.toCore key + s.carries key : ℤ) + 1 ≤ cap

namespace Session

variable {s s' : Session} {db db' view : Db} {key : String}

/-- The transaction sees the jobs of a key that are committed and those that it started. -/
theorem Ok.sees (ok : s.Ok db) (seen : s.view db = .ok view) :
    runningWithKey view.toCore key = runningWithKey db.toCore key + s.carries key := by
  rw [runningWithKey_eq, runningWithKey_eq, (replay_starts ok.waiting seen).counts _ (keyed_fixed key)]
  rfl

theorem Ok.cap (ok : s.Ok db) (seen : s.view db = .ok view) : concurrencyCap view key = concurrencyCap db key := by
  have limits : view.concurrencyLimits = db.concurrencyLimits :=
    congrArg (fun s => s.2.2.1) (replay_starts ok.waiting seen).settings
  rw [concurrencyCap, concurrencyCap, limits]

/-- A transaction holds the lock of every key that it has started a job of. -/
theorem Ok.owns (ok : s.Ok db) (some' : 0 < s.carries key) : "taskq.ck:" ++ key ∈ s.locks := by
  obtain ⟨e, member, mine⟩ := List.countP_pos_iff.mp some'
  exact ok.locks e member key (by simpa using mine)

/-- A transaction without a candidate in hand. -/
theorem Ok.idle (ok : s.Ok db) (started : s'.started = s.started) (rows : s'.rows = s.rows)
    (locks : ∀ name ∈ s.locks, name ∈ s'.locks) (caps : s'.caps = s.caps) (idle : s'.phase.candidate = none) :
    s'.Ok db where
  waiting := started ▸ ok.waiting
  rows := by rw [started, rows]; exact ok.rows
  locks := by
    rw [started]
    exact fun e member key keyed => locks _ (ok.locks e member key keyed)
  caps := by
    unfold Session.carries
    rw [started, caps]
    exact ok.caps
  held e here := nomatch idle.symm.trans here
  cleared id job key here := by
    rw [here] at idle
    cases idle

/-- A transaction whose candidate has been let through. -/
theorem Ok.clears {id : Uuid} {job : Job} (ok : s.Ok db) (started : s'.started = s.started)
    (rows : s'.rows = s.rows) (locks : ∀ name ∈ s.locks, name ∈ s'.locks)
    (before : s.phase.candidate = some (id, job)) (phase : s'.phase = .cleared id job)
    (caps : ∀ key, job.concurrencyKey = some key → "taskq.ck:" ++ key ∈ s'.locks ∧
      ∃ cap, s'.caps.get? key = some cap ∧ (runningWithKey db.toCore key + s.carries key : ℤ) + 1 ≤ cap)
    (others : ∀ key, job.concurrencyKey ≠ some key → s'.caps.get? key = s.caps.get? key) : s'.Ok db := by
  have carries : s'.carries = s.carries := by
    unfold Session.carries
    rw [started]
  refine ⟨started ▸ ok.waiting, by rw [started, rows]; exact ok.rows, ?_, fun key some' => ?_, fun e here => ?_,
    fun id' job' key here keyed => ?_⟩
  · rw [started]
    exact fun e member key keyed => locks _ (ok.locks e member key keyed)
  · rw [carries] at some' ⊢
    by_cases mine : job.concurrencyKey = some key
    · obtain ⟨-, cap, found, fits⟩ := caps key mine
      exact ⟨cap, found, by omega⟩
    · rw [others key mine]
      exact ok.caps key some'
  · rw [phase] at here
    cases here
    rw [rows, started]
    exact ok.held _ before
  · rw [phase] at here
    cases here
    rw [carries]
    exact caps key keyed

/-- A call that leaves the transaction's rows alone and starts no job of its keys leaves it in order. -/
theorem Ok.spared (ok : s.Ok db) (spared : s.spared db db' = true)
    (fewer : ∀ key, "taskq.ck:" ++ key ∈ s.locks → runningWithKey db'.toCore key ≤ runningWithKey db.toCore key) :
    s.Ok db' := by
  simp only [Session.spared, Bool.and_eq_true, List.all_eq_true, decide_eq_true_eq] at spared
  refine ⟨ok.waiting.of_kept fun id member => ?_, ok.rows, ok.locks, fun key some' => ?_, fun e here => ?_,
    fun id job key here keyed => ?_⟩
  · obtain ⟨e, started, rfl⟩ := List.mem_map.mp member
    exact spared.1 e.1 (ok.rows e started)
  · obtain ⟨cap, found, fits⟩ := ok.caps key some'
    have := fewer key (ok.owns some')
    exact ⟨cap, found, by omega⟩
  · obtain ⟨mine, stored, rest⟩ := ok.held e here
    exact ⟨mine, (spared.1 e.1 mine).trans stored, rest⟩
  · obtain ⟨mine, cap, found, fits⟩ := ok.cleared id job key here keyed
    have := fewer key mine
    exact ⟨mine, cap, found, by omega⟩

/-- A scan returns a job that waits for everybody, and the transaction locks its row. -/
theorem Ok.picks {id : Uuid} {job : Job} {scan : Scan} {locked : Uuid → Bool} (ok : s.Ok db)
    (seen : s.view db = .ok view) (picked : s.call.pick { s.env with locked := locked } s.granted s.prepared
      s.scan view.toCore = .ok (some (id, job), scan)) :
    db.jobs.get? id = some job ∧ job.status = .queued ∧ id ∉ s.started.map Prod.fst := by
  obtain ⟨stored, good⟩ := s.call.picks { s.env with locked := locked } s.granted s.prepared picked
  obtain ⟨queued, -, -⟩ := claimable_iff good
  have starts := replay_starts ok.waiting seen
  have fresh : id ∉ s.started.map Prod.fst := by
    intro member
    obtain ⟨e, started, rfl⟩ := List.mem_map.mp member
    obtain ⟨row, there, running⟩ := starts.runs e started
    cases stored.symm.trans there
    rw [queued] at running
    cases running
  exact ⟨(starts.kept id fresh).symm.trans stored, queued, fresh⟩

theorem locksTaken_free {env : Env} {job : JobRow} {name : String} (taken : name ∈ locksTaken env job db) :
    env.tryLock name = true := by
  simp only [locksTaken, List.mem_append, List.mem_filter] at taken
  obtain ⟨-, free⟩ | taken := taken
  · exact free
  · split_ifs at taken
    · exact (List.mem_filter.mp taken).2
    · cases taken

/-- A candidate that its gates let through holds its key's lock and finds a free slot. -/
theorem admitted_slot {env : Env} {job : JobRow} (admitted : (admitCandidate env job db).1 = true)
    (keyed : job.concurrencyKey = some key) : "taskq.ck:" ++ key ∈ locksTaken env job db ∧
      (runningWithKey db.toCore key : ℤ) + 1 ≤ concurrencyCap db key := by
  simp only [admitCandidate, keyed, Option.all_some, Bool.and_eq_true, decide_eq_true_eq] at admitted
  split at admitted
  · cases admitted
  · rename_i free
    obtain ⟨lock, room⟩ := not_not.mp free
    refine ⟨?_, by omega⟩
    simp [locksTaken, keyed, lock]

theorem tokenTaken_started (env : Env) (job : JobRow) (db : Db) :
    (tokenTaken env job db).filterMap Effect.started = [] := by
  simp [tokenTaken, Effect.started, List.filterMap_map, Function.comp_def]

/-- A transaction that has started its candidate. -/
theorem Ok.starts {id : Uuid} {job : Job} (ok : s.Ok db) (phase : s.phase = .cleared id job)
    (started : s'.started = s.started ++ [(id, job)]) (rows : s'.rows = s.rows) (locks : s'.locks = s.locks)
    (caps : s'.caps = s.caps) (idle : s'.phase.candidate = none) : s'.Ok db := by
  obtain ⟨mine, stored, queued, fresh⟩ := ok.held (id, job) (by rw [phase]; rfl)
  have member {e : Uuid × Job} (here : e ∈ s'.started) : e ∈ s.started ∨ e = (id, job) := by
    rw [started] at here
    exact (List.mem_append.mp here).imp_right List.mem_singleton.mp
  refine ⟨⟨fun e here => ?_, ?_⟩, fun e here => ?_, fun e here key keyed => ?_, fun key some' => ?_,
    fun e here => (nomatch idle.symm.trans here), fun id job key here => ?_⟩
  · obtain here | rfl := member here
    · exact ok.waiting.stored e here
    · exact ⟨stored, queued⟩
  · rw [started, List.map_append]
    exact ok.waiting.nodup.append (List.nodup_singleton _) (by simpa using fresh)
  · rw [rows]
    obtain here | rfl := member here
    · exact ok.rows e here
    · exact mine
  · rw [locks]
    obtain here | rfl := member here
    · exact ok.locks e here key keyed
    · exact (ok.cleared id job key phase keyed).1
  · have counts : s'.carries key = s.carries key + if job.concurrencyKey = some key then 1 else 0 := by
      rw [Session.carries, started, List.countP_append, List.countP_singleton]
      simp [Session.carries]
    rw [counts] at some' ⊢
    rw [caps]
    by_cases keyed : job.concurrencyKey = some key
    · obtain ⟨-, cap, found, fits⟩ := ok.cleared id job key phase keyed
      exact ⟨cap, found, by simp only [keyed, if_true]; push_cast; omega⟩
    · simp only [keyed, if_false, add_zero] at some' ⊢
      exact ok.caps key some'
  · rw [here] at idle
    cases idle

/-- The jobs of a key that run after a claim's commit. -/
theorem Ok.finish {locked : Uuid → Bool} (ok : s.Ok db) (next : s.finish locked db = some db') (key : String) :
    runningWithKey db'.toCore key ≤ runningWithKey db.toCore key + s.carries key := by
  rw [runningWithKey_eq, runningWithKey_eq]
  exact finish_runningOf ok.waiting next (keyed_fixed key)

end Session

section Server

variable {v w : Server} {a : Action} {i : ℕ} {s s' : Session} {key : String}

theorem split_at {α : Type} {l : List α} {a : α} (here : l[i]? = some a) : ∃ before after,
    l = before ++ a :: after ∧ l.eraseIdx i = before ++ after ∧ ∀ b, l.set i b = before ++ b :: after := by
  obtain ⟨short, rfl⟩ := List.getElem?_eq_some_iff.mp here
  refine ⟨l.take i, l.drop (i + 1), ?_, List.eraseIdx_eq_take_drop_succ .., fun b => ?_⟩
  · rw [List.getElem_cons_drop, List.take_append_drop]
  · rw [List.set_eq_take_append_cons_drop, if_pos short]

/-- All claims in progress are in order, and no two of them hold one lock. -/
structure Server.Ok (v : Server) : Prop where
  each : ∀ s ∈ v.sessions, s.Ok v.db
  apart : v.sessions.Pairwise fun s t => s.locks.Disjoint t.locks

namespace Server

theorem free_spec {sessions : List Session} {tryLock : String → Bool} {name : String}
    (unlocked : free sessions tryLock name = true) : ∀ t ∈ sessions, name ∉ t.locks := by
  simp only [free, Bool.and_eq_true, Bool.not_eq_true', List.any_eq_false] at unlocked
  exact fun t member => by simpa using unlocked.2 t member

/-- A turn leaves its transaction in order and takes only locks that are free. -/
theorem Turn.ok (turn : Turn v i a s s') (ok : s.Ok v.db) :
    s'.Ok v.db ∧ ∀ name ∈ s'.locks, name ∈ s.locks ∨ ∀ t ∈ v.others i, name ∉ t.locks := by
  cases turn with
  | prepare next =>
    obtain ⟨view, -, -, rfl⟩ := Session.prepare_cases next
    exact ⟨ok.idle rfl rfl (fun _ h => h) rfl rfl, fun _ => .inl⟩
  | look next =>
    obtain rfl | ⟨view, id, job, scan, -, seen, picked, rfl⟩ := Session.look_cases next
    · exact ⟨ok.idle rfl rfl (fun _ h => h) rfl rfl, fun _ => .inl⟩
    · refine ⟨⟨ok.waiting, fun e member => List.mem_append_left _ (ok.rows e member), ok.locks, ok.caps,
        fun e here => ?_, fun id job key here => (nomatch here)⟩, fun _ => .inl⟩
      cases here
      exact ⟨List.mem_append_right _ (List.mem_singleton_self _), ok.picks seen picked⟩
  | check next =>
    obtain ⟨id, job, view, env, surroundings, phase, seen, outcome⟩ := Session.check_cases next
    have same : (s.effects ++ tokenTaken env job.toJobRow view).filterMap Effect.started = s.started := by
      rw [List.filterMap_append, Session.tokenTaken_started, List.append_nil]
      rfl
    have locks {name : String} (member : name ∈ s.locks ++ locksTaken env job.toJobRow view) :
        name ∈ s.locks ∨ ∀ t ∈ v.others i, name ∉ t.locks := by
      refine (List.mem_append.mp member).imp_right fun taken => ?_
      have unlocked := Session.locksTaken_free taken
      rw [surroundings] at unlocked
      exact free_spec unlocked
    obtain ⟨admitted, rfl⟩ | rfl := outcome
    · refine ⟨ok.clears same rfl (fun _ => List.mem_append_left _) (by rw [phase]; rfl) rfl
        (fun key keyed => ?_) fun key other => ?_, fun name => locks⟩
      · obtain ⟨lock, room⟩ := Session.admitted_slot admitted keyed
        rw [ok.sees seen] at room
        refine ⟨List.mem_append_right _ lock, concurrencyCap view key, ?_, by exact_mod_cast room⟩
        simp [keyed]
      · cases keyed : job.concurrencyKey with
        | none => rfl
        | some own =>
          refine Table.get?_put_of_ne _ _ ?_
          rintro rfl
          exact other keyed
    · exact ⟨ok.idle same rfl (fun _ => List.mem_append_left _) rfl rfl, fun name => locks⟩
  | start next =>
    obtain ⟨id, job, phase, rfl⟩ := Session.start_cases next
    exact ⟨ok.starts phase List.filterMap_append rfl rfl rfl rfl, fun _ => .inl⟩

theorem Ok.set (ok : v.Ok) (here : v.sessions[i]? = some s) (ok' : s'.Ok v.db)
    (locks : ∀ name ∈ s'.locks, name ∈ s.locks ∨ ∀ t ∈ v.others i, name ∉ t.locks) :
    Ok { v with sessions := v.sessions.set i s' } := by
  obtain ⟨before, after, all, rest, sets⟩ := split_at here
  have each := ok.each
  have apart := ok.apart
  rw [all] at each apart
  refine ⟨fun t there => ?_, ?_⟩
  · rw [sets] at there
    simp only [List.mem_append, List.mem_cons] at there each
    obtain there | rfl | there := there
    · exact each t (.inl there)
    · exact ok'
    · exact each t (.inr (.inr there))
  · rw [others, rest] at locks
    rw [sets]
    simp only [List.pairwise_append, List.pairwise_cons, List.mem_cons] at apart ⊢
    obtain ⟨first, ⟨heads, second⟩, cross⟩ := apart
    refine ⟨first, ⟨fun t there name mine theirs => ?_, second⟩, fun t there u here name theirs mine => ?_⟩
    · obtain old | new := locks name mine
      · exact heads t there old theirs
      · exact new t (List.mem_append_right _ there) theirs
    · obtain rfl | here := here
      · obtain old | new := locks name mine
        · exact cross t there s (.inl rfl) theirs old
        · exact new t (List.mem_append_left _ there) theirs
      · exact cross t there u (.inr here) theirs mine

/-- A claim that its gates let through has started nothing. -/
theorem Ok.enrol (ok : v.Ok) (env : Env) (c : ClaimCall) (n : ℤ) (gated : Db) : (v.enrol env c n gated).Ok := by
  have told {t : Session} (there : t ∈ v.sessions.map fun s =>
      if s.queue = c.args.queue then { s with beside := s.beside ++ [n] } else s) :
      ∃ s ∈ v.sessions, t.locks = s.locks ∧ t.Ok v.db := by
    obtain ⟨s, member, rfl⟩ := List.mem_map.mp there
    refine ⟨s, member, ?_⟩
    have was := ok.each s member
    split
    · exact ⟨rfl, was.waiting, was.rows, was.locks, was.caps, was.held, was.cleared⟩
    · exact ⟨rfl, was⟩
  have nothing : (if gated.queueFlow.rows = v.db.queueFlow.rows then [] else
      (gated.queueFlow.get? c.args.queue).toList.map (Effect.flow c.args.queue)).filterMap Effect.started = [] := by
    split
    · rfl
    · cases gated.queueFlow.get? c.args.queue <;> rfl
  refine ⟨fun t member => ?_, ?_⟩
  · obtain there | there := List.mem_append.mp member
    · exact (told there).choose_spec.2.2
    · cases List.mem_singleton.mp there
      refine ⟨⟨?_, ?_⟩, ?_, ?_, ?_, fun e here => (by cases here), fun id job key here => by cases here⟩ <;>
        simp [Session.started, Session.carries, nothing]
  · refine List.pairwise_append.mpr ⟨?_, List.pairwise_singleton _ _, fun t _ u there => ?_⟩
    · refine List.pairwise_map.mpr (ok.apart.imp fun {s t} apart => ?_)
      split <;> split <;> exact apart
    · cases List.mem_singleton.mp there
      exact List.disjoint_nil_right _

theorem Ok.step (ok : v.Ok) (next : v.step a = some w) : w.Ok := by
  cases step_cases next with
  | call other run spared =>
    refine ⟨fun s member => (ok.each s member).spared (spared s member) fun key _ => ?_, ok.apart⟩
    rw [runningWithKey_eq, runningWithKey_eq]
    exact Command.runningOf_le run other (keyed_fixed key)
  | refuse gates spared =>
    refine ⟨fun s member => (ok.each s member).spared (spared s member) fun key _ => ?_, ok.apart⟩
    rw [(ClaimCall.gates_unseen gates).core]
  | enter gates => exact ok.enrol ..
  | turn here moved =>
    obtain ⟨ok', locks⟩ := moved.ok (ok.each _ (List.mem_of_getElem? here))
    exact ok.set here ok' locks
  | @finish i locked s db here finished spared =>
    obtain ⟨before, after, all, rest, -⟩ := split_at here
    have each := ok.each
    have apart := ok.apart
    rw [all] at each apart
    rw [others, rest] at spared ⊢
    have own := each s (by simp)
    refine ⟨fun t member => ?_, apart.sublist (by simp)⟩
    have away : s.locks.Disjoint t.locks := by
      simp only [List.pairwise_append, List.pairwise_cons, List.mem_cons] at apart
      obtain ⟨-, ⟨heads, -⟩, cross⟩ := apart
      obtain there | there := List.mem_append.mp member
      · exact (cross t there s (.inl rfl)).symm
      · exact heads t there
    refine (each t (by grind)).spared (spared t member) fun key mine => ?_
    have none' : s.carries key = 0 := Nat.eq_zero_of_not_pos fun some' => away (own.owns some') mine
    simpa [none'] using own.finish finished key
  | abort i =>
    exact ⟨fun t member => ok.each t (List.mem_of_mem_eraseIdx member),
      ok.apart.sublist (List.eraseIdx_sublist _ _)⟩

/-- Only the commit of a claim makes more jobs of a key run, and then no more than the cap that it found. -/
theorem Ok.raises (ok : v.Ok) (next : v.step a = some w) (key : String) :
    runningWithKey w.db.toCore key ≤ runningWithKey v.db.toCore key ∨
      ∃ i locked s cap, a = .finish i locked ∧ v.sessions[i]? = some s ∧ s.caps.get? key = some cap ∧
        (runningWithKey w.db.toCore key : ℤ) ≤ cap := by
  cases step_cases next with
  | call other run =>
    left
    rw [runningWithKey_eq, runningWithKey_eq]
    exact Command.runningOf_le run other (keyed_fixed key)
  | refuse gates => exact .inl (by rw [(ClaimCall.gates_unseen gates).core])
  | enter | turn | abort => exact .inl le_rfl
  | @finish i locked s db here finished =>
    have own := ok.each s (List.mem_of_getElem? here)
    have bound := own.finish finished key
    by_cases none' : s.carries key = 0
    · exact .inl (by simpa [none'] using bound)
    · obtain ⟨cap, found, fits⟩ := own.caps key (Nat.pos_of_ne_zero none')
      exact .inr ⟨i, locked, s, cap, rfl, here, found, by dsimp only; omega⟩

/-- The caps that the claims found for a key are the limit. -/
def Found (key : String) (limit : ℤ) (v : Server) : Prop :=
  ∀ s ∈ v.sessions, ∀ cap, s.caps.get? key = some cap → cap = limit

theorem Found.step {limit : ℤ} (found : Found key limit v) (ok : v.Ok) (fixed : concurrencyCap v.db key = limit)
    (next : v.step a = some w) : Found key limit w := by
  cases step_cases next with
  | call | refuse => exact found
  | enter =>
    intro t there cap recorded
    obtain there | there := List.mem_append.mp there
    · obtain ⟨s, member, rfl⟩ := List.mem_map.mp there
      refine found s member cap ?_
      split at recorded <;> exact recorded
    · cases List.mem_singleton.mp there
      cases recorded
  | @turn _ i s s' here moved =>
    have member := List.mem_of_getElem? here
    intro t there cap recorded
    obtain there | rfl := List.mem_or_eq_of_mem_set there
    · exact found t there cap recorded
    · cases moved with
      | prepare next =>
        obtain ⟨view, -, -, rfl⟩ := Session.prepare_cases next
        exact found s member cap recorded
      | look next =>
        obtain rfl | ⟨view, id, job, scan, -, -, -, rfl⟩ := Session.look_cases next <;>
          exact found s member cap recorded
      | check next =>
        obtain ⟨id, job, view, env, -, -, seen, ⟨-, rfl⟩ | rfl⟩ := Session.check_cases next
        · cases keyed : job.concurrencyKey with
          | none =>
            simp only [keyed, Option.map_none, Option.getD_none] at recorded
            exact found s member cap recorded
          | some own =>
            simp only [keyed, Option.map_some, Option.getD_some, Table.get?_put] at recorded
            split_ifs at recorded with same
            · cases recorded
              rw [← same, (ok.each s member).cap seen, fixed]
            · exact found s member cap recorded
        · exact found s member cap recorded
      | start next =>
        obtain ⟨id, job, -, rfl⟩ := Session.start_cases next
        exact found s member cap recorded
  | finish | abort => exact fun t there => found t (List.mem_of_mem_eraseIdx there)

theorem Ok.idle (db : Db) : (Server.idle db).Ok :=
  ⟨fun _ member => absurd member List.not_mem_nil, List.Pairwise.nil⟩

theorem Run.ok {allowed : Server → Action → Prop} {db : Db} (run : Run allowed (idle db) v) : v.Ok := by
  induction run with
  | start => exact .idle db
  | step _ _ next ih => exact ih.step next

/-- At most one claim in progress has started jobs of a key. -/
theorem Ok.sum_carries (ok : v.Ok) (key : String) : (v.sessions.map (·.carries key)).sum = 0 ∨
    ∃ s ∈ v.sessions, 0 < s.carries key ∧ (v.sessions.map (·.carries key)).sum = s.carries key := by
  obtain ⟨each, apart⟩ := ok
  generalize v.sessions = sessions at each apart
  induction sessions with
  | nil => exact .inl rfl
  | cons s rest ih =>
    obtain ⟨away, apart⟩ := List.pairwise_cons.mp apart
    have tail := ih (fun t member => each t (List.mem_cons_of_mem _ member)) apart
    rw [List.map_cons, List.sum_cons]
    by_cases mine : s.carries key = 0
    · rw [mine, Nat.zero_add]
      exact tail.imp_right fun ⟨t, member, rest⟩ => ⟨t, List.mem_cons_of_mem _ member, rest⟩
    · have some' := Nat.pos_of_ne_zero mine
      refine .inr ⟨s, List.mem_cons_self, some', ?_⟩
      obtain none' | ⟨t, member, theirs, -⟩ := tail
      · rw [none', Nat.add_zero]
      · exact absurd ((each t (List.mem_cons_of_mem _ member)).owns theirs)
          (away t member ((each s List.mem_cons_self).owns some'))

/-- The jobs of a key that run, with those that the claims in progress have started. -/
def busy (key : String) (v : Server) : ℕ :=
  runningWithKey v.db.toCore key + (v.sessions.map (·.carries key)).sum

theorem Ok.busy_le {limit : ℤ} (ok : v.Ok) (found : Found key limit v)
    (few : (runningWithKey v.db.toCore key : ℤ) ≤ limit) : (busy key v : ℤ) ≤ limit := by
  rw [busy]
  obtain none' | ⟨s, member, some', total⟩ := ok.sum_carries key
  · rwa [none', Nat.add_zero]
  · obtain ⟨cap, recorded, fits⟩ := (ok.each s member).caps key some'
    rw [total, ← found s member cap recorded]
    exact_mod_cast fits

theorem Run.few {allowed : Server → Action → Prop} {limit : ℤ} {db : Db}
    (fixed : ∀ u a, allowed u a → concurrencyCap u.db key = limit)
    (few : (runningWithKey db.toCore key : ℤ) ≤ limit) (run : Run allowed (idle db) v) :
    Found key limit v ∧ (runningWithKey v.db.toCore key : ℤ) ≤ limit := by
  induction run with
  | start => exact ⟨fun _ member => absurd member List.not_mem_nil, few⟩
  | @step _ _ a before permitted next ih =>
    obtain ⟨found, few⟩ := ih
    refine ⟨found.step before.ok (fixed _ a permitted) next, ?_⟩
    obtain fewer | ⟨i, locked, s, cap, -, here, recorded, fits⟩ := before.ok.raises next key
    · exact le_trans (by exact_mod_cast fewer) few
    · exact (found s (List.mem_of_getElem? here) cap recorded) ▸ fits

end Server

/-- However claims interleave with one another and with all other calls, the only step that makes more jobs
of a concurrency key run is the commit of a claim, and it leaves no more of them than the cap that the claim
found when it last let one of them through, under the key's lock. With a limit that stays as it is, no more
than the limit run at any moment, the ones that claims in progress have started included. -/
theorem concurrency_keys_capped {allowed : Server → Action → Prop} {db : Db} {v : Server}
    (run : Server.Run allowed (.idle db) v) (key : String) :
    (∀ a w, v.step a = some w → runningWithKey w.db.toCore key ≤ runningWithKey v.db.toCore key ∨
      ∃ i locked s cap, a = .finish i locked ∧ v.sessions[i]? = some s ∧ s.caps.get? key = some cap ∧
        (runningWithKey w.db.toCore key : ℤ) ≤ cap) ∧
    (∀ i tryLock s s', v.sessions[i]? = some s → s.check (Server.free (v.others i) tryLock) v.db = some s' →
      s'.caps = s.caps ∨ ∃ id job own, s'.phase = .cleared id job ∧ job.concurrencyKey = some own ∧
        (∀ t ∈ v.others i, "taskq.ck:" ++ own ∉ t.locks) ∧
        s'.caps = s.caps.put own (concurrencyCap v.db own)) ∧
    ∀ limit, (∀ u a, allowed u a → concurrencyCap u.db key = limit) →
      (runningWithKey db.toCore key : ℤ) ≤ limit → (Server.busy key v : ℤ) ≤ limit := by
  refine ⟨fun a w next => run.ok.raises next key, fun i tryLock s s' here next => ?_, fun limit fixed few => ?_⟩
  · obtain ⟨id, job, view, env, surroundings, -, seen, ⟨admitted, rfl⟩ | rfl⟩ := Session.check_cases next
    · cases keyed : job.concurrencyKey with
      | none => exact .inl rfl
      | some own =>
        have unlocked := Session.locksTaken_free (Session.admitted_slot admitted keyed).1
        rw [surroundings] at unlocked
        have cap : concurrencyCap view own = concurrencyCap v.db own :=
          (run.ok.each s (List.mem_of_getElem? here)).cap seen
        refine .inr ⟨id, job, own, rfl, keyed, Server.free_spec unlocked, ?_⟩
        rw [← cap]
        rfl
    · exact .inl rfl
  · obtain ⟨found, fits⟩ := run.few fixed few
    exact run.ok.busy_le found fits

/-- Two claims at once, each with one job of the key in sight; the first one starts its job and commits. -/
def twoAtOnce : List Action :=
  [.enter (.alone .plain 0 10) oneJob, .prepare 0, .look 0 fun _ => false, .check 0 fun _ => true,
    .enter (.alone .plain 0 11) oneJob, .prepare 1, .look 1 fun _ => false, .check 1 fun _ => true,
    .start 0, .look 0 fun _ => false, .finish 0 fun _ => false]

theorem concurrency_keys_capped_two : ∃ (s : System) (v : Server), System.Reachable .plain anyCall s ∧
    Server.Run (fun u _ => concurrencyCap u.db "k" = 1) (.idle s.db) v ∧ Server.busy "k" v = 1 ∧
    v.sessions.length = 1 ∧ (Server.busy "k" v : ℤ) ≤ 1 := by
  have played : System.plays .plain [(0, .ensureQueue (some "q") none),
      (0, .enqueue { EnqueueArgs.simple "q" with concurrencyKey := some "k" }),
      (0, .enqueue { EnqueueArgs.simple "q" with concurrencyKey := some "k" })] (.installed .plain 0) (fun s =>
        decide (runningWithKey s.db.toCore "k" = 0) &&
        (Server.play (fun u => concurrencyCap u.db "k" = 1) twoAtOnce (.idle s.db)).any fun v =>
          Server.busy "k" v = 1 && v.sessions.length = 1) = true := by decide +kernel
  obtain ⟨s, run, there⟩ := System.plays_run anyCall played fun _ _ _ => trivial
  simp only [Bool.and_eq_true, decide_eq_true_eq] at there
  obtain ⟨free, there⟩ := there
  obtain ⟨v, plays, there⟩ := (Option.any_eq_true _ _).mp there
  simp only [Bool.and_eq_true, decide_eq_true_eq] at there
  have claims : Server.Run (fun u _ => concurrencyCap u.db "k" = 1) (.idle s.db) v :=
    Server.play_run (fun u _ needed => by simpa using needed) .start plays
  exact ⟨s, v, ⟨0, run⟩, claims, there.1, there.2,
    (concurrency_keys_capped claims "k").2.2 1 (fun _ _ fixed => fixed) (by simp [free])⟩

end Server

end Taskq
