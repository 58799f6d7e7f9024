import Mathlib.Algebra.Order.BigOperators.Group.List
import Taskq.Claiming.Gates
import Taskq.Contract.Counters
import Taskq.Contract.Slots

/-! How far the claims on a queue overshoot its cap on running jobs: each of them sizes its whole batch by
one read of the running counter, and commits it later. -/
namespace Taskq
open Relational

section Counted

variable {env : Env} {args : ClaimArgs} {effects : List Effect} {db db' d : Db} {queue : String}

/-- The jobs of a queue that run. -/
def runningIn (queue : String) (db : Db) : ℕ := jobsIn db.jobs queue .running

theorem runningIn_eq (queue : String) (db : Db) :
    runningIn queue db = runningOf (fun j => j.queue = queue) db.toCore := by
  simp only [runningIn, jobsIn, runningOf, ← Bool.decide_and, and_comm]

theorem queue_fixed (queue : String) : Fixed fun j => j.queue = queue := by
  intro a b same
  have : a.queue = b.queue := congrArg Identity.queue same
  simp [this]

theorem Logs.counted (logs : Logs env db d) (ok : CountersTrue db) : CountersTrue d := by
  obtain ⟨log, statements⟩ := logs.statements
  exact (statements.counters ok).1

/-- The counters stay true under the writes of a claim. -/
theorem replay_counted (waiting : Waiting db (effects.filterMap Effect.started))
    (run : replay env args effects db = .ok d) (ok : CountersTrue db) : CountersTrue d := by
  induction effects generalizing db with
  | nil =>
    cases run
    exact ok
  | cons effect effects ih =>
    obtain ⟨mid, first, rest⟩ := seq_eq_ok.mp run
    cases effect with
    | flow queue row =>
      cases first
      have same : Waiting (db.putFlow queue row) (effects.filterMap Effect.started) :=
        waiting.of_kept fun _ _ => rfl
      exact ih same rest (ok.aside rfl rfl).1
    | token key tat =>
      cases first
      have same : Waiting { db with flowState := db.flowState.put key tat }
          (effects.filterMap Effect.started) := waiting.of_kept fun _ _ => rfl
      exact ih same rest (ok.aside rfl rfl).1
    | start id job =>
      obtain ⟨claimed, start⟩ := map_snd_eq_ok.mp first
      have starts : ((Effect.start id job :: effects).filterMap Effect.started) =
          (id, job) :: effects.filterMap Effect.started := rfl
      rw [starts] at waiting
      obtain ⟨here, -⟩ := waiting.stored (id, job) (by simp)
      exact ih (waiting.tail start) rest ((startAttempt_logs start here).counted ok)

theorem Session.finish_counted {s : Session} {locked : Uuid → Bool} (waiting : Waiting db s.started)
    (next : s.finish locked db = some d) (ok : CountersTrue db) : CountersTrue d := by
  obtain ⟨view, -, seen, ⟨-, rfl⟩ | ⟨-, n, reap⟩⟩ := finish_cases next
  · exact replay_counted waiting seen ok
  · exact (reapExpired_path reap).logs.counted (replay_counted waiting seen ok)

end Counted

/-- What a claim has started and may start is what it was granted, from its own queue. -/
structure Session.Sized (s : Session) : Prop where
  spent : (s.started.length : ℤ) + s.wanted = s.granted
  left : 0 ≤ s.wanted
  owns : ∀ e ∈ s.started, e.2.queue = s.queue
  held : ∀ e, s.phase.candidate = some e → e.2.queue = s.queue ∧ 1 ≤ s.wanted

namespace Session

variable {s s' : Session} {db d : Db} {queue : String} {locked : Uuid → Bool}

theorem Sized.few (sized : s.Sized) : (s.started.length : ℤ) ≤ s.granted := by
  have := sized.spent
  have := sized.left
  omega

/-- A commit makes no more jobs of the claim's queue run than the claim was granted, and none of another. -/
theorem Sized.finish (sized : s.Sized) (ok : s.Ok db) (next : s.finish locked db = some d) (queue : String) :
    (runningIn queue d : ℤ) ≤ runningIn queue db + if s.queue = queue ∧ s.started ≠ [] then s.granted else 0 := by
  have bound := finish_runningOf ok.waiting next (queue_fixed queue)
  rw [← runningIn_eq, ← runningIn_eq] at bound
  split
  · have := List.countP_le_length (p := fun e : Uuid × Job => decide (e.2.toJobRow.queue = queue)) (l := s.started)
    have := sized.few
    omega
  · rename_i other
    have none' : s.started.countP (fun e => decide (e.2.toJobRow.queue = queue)) = 0 := by
      refine List.countP_eq_zero.mpr fun e member => ?_
      rw [sized.owns e member, decide_eq_true_eq]
      exact fun same => other ⟨same, List.ne_nil_of_mem member⟩
    omega

end Session

namespace Server

variable {v w : Server} {a : Action} {i : ℕ} {s s' : Session} {queue : String}

/-- What a claim is and was granted does not change while it goes on. -/
theorem Turn.same (turn : Turn v i a s s') :
    s'.queue = s.queue ∧ s'.granted = s.granted ∧ s'.read = s.read ∧ s'.beside = s.beside := by
  cases turn with
  | prepare next =>
    obtain ⟨view, -, -, rfl⟩ := Session.prepare_cases next
    exact ⟨rfl, rfl, rfl, rfl⟩
  | look next =>
    obtain rfl | ⟨view, id, job, scan, -, -, -, rfl⟩ := Session.look_cases next <;> exact ⟨rfl, rfl, rfl, rfl⟩
  | check next =>
    obtain ⟨id, job, view, env, -, -, -, ⟨-, rfl⟩ | rfl⟩ := Session.check_cases next <;>
      exact ⟨rfl, rfl, rfl, rfl⟩
  | start next =>
    obtain ⟨id, job, -, rfl⟩ := Session.start_cases next
    exact ⟨rfl, rfl, rfl, rfl⟩

theorem Turn.sized (turn : Turn v i a s s') (sized : s.Sized) : s'.Sized := by
  cases turn with
  | prepare next =>
    obtain ⟨view, -, -, rfl⟩ := Session.prepare_cases next
    exact ⟨sized.spent, sized.left, sized.owns, fun e here => by cases here⟩
  | look next =>
    obtain rfl | ⟨view, id, job, scan, more, seen, picked, rfl⟩ := Session.look_cases next
    · exact ⟨sized.spent, sized.left, sized.owns, fun e here => by cases here⟩
    · refine ⟨sized.spent, sized.left, sized.owns, fun e here => ?_⟩
      cases here
      obtain ⟨-, good⟩ := s.call.picks _ s.granted s.prepared picked
      simp only [claimable, Bool.and_eq_true, decide_eq_true_eq] at good
      exact ⟨good.1.1.1.1.1.1, more⟩
  | check next =>
    obtain ⟨id, job, view, env, -, phase, -, outcome⟩ := Session.check_cases next
    have same : (s.effects ++ tokenTaken env job.toJobRow view).filterMap Effect.started = s.started := by
      rw [List.filterMap_append, Session.tokenTaken_started, List.append_nil]
      rfl
    have held := sized.held (id, job) (by rw [phase]; rfl)
    obtain ⟨-, rfl⟩ | rfl := outcome
    · refine ⟨?_, sized.left, fun e member => sized.owns e (same ▸ member), fun e here => ?_⟩
      · rw [← sized.spent, ← same]
        rfl
      · cases here
        exact held
    · refine ⟨?_, sized.left, fun e member => sized.owns e (same ▸ member), fun e here => by cases here⟩
      rw [← sized.spent, ← same]
      rfl
  | start next =>
    obtain ⟨id, job, phase, rfl⟩ := Session.start_cases next
    obtain ⟨own, more⟩ := sized.held (id, job) (by rw [phase]; rfl)
    have started : (s.effects ++ [Effect.start id job]).filterMap Effect.started = s.started ++ [(id, job)] :=
      List.filterMap_append
    refine ⟨?_, Int.sub_nonneg_of_le more, fun e member => ?_, fun e here => by cases here⟩
    · rw [← sized.spent]
      simp only [Session.started, started, List.length_append, List.length_singleton]
      push_cast
      ring
    · rw [Session.started, started] at member
      obtain member | member := List.mem_append.mp member
      · exact sized.owns e member
      · cases List.mem_singleton.mp member
        exact own

/-- What the claims on a queue have been granted. -/
def grants (queue : String) (sessions : List Session) : List ℤ :=
  (sessions.filter (·.queue = queue)).map (·.granted)

/-- What runs and what the other claims on its queue may still start has been read by a claim or was
granted beside it. -/
structure Balanced (queue : String) (v : Server) : Prop where
  counted : CountersTrue v.db
  sized : ∀ s ∈ v.sessions, s.Sized
  read : ∀ s ∈ v.sessions, s.queue = queue →
    runningIn queue v.db + ((grants queue v.sessions).sum - s.granted) ≤ s.read + s.beside.sum

/-- A queue's cap and bucket let a call through with at least one job. -/
theorem queueGate_grant {env : Env} {args : ClaimArgs} {q : Queue} {batch n : ℤ} {db gated : Db}
    (run : queueGate env args q batch db = .ok (.ok n, gated)) (some' : 1 ≤ batch) : 1 ≤ n := by
  simp only [queueGate] at run
  generalize (do let a ← q.maxRunning; pure (a : ℚ)).map (fun m => max 1 ⌊m * flowScale env db args.queue
    q.rampSeconds⌋) = cap at run
  split at run
  · cases run
  · rename_i room
    have batched : 1 ≤ (cap.map fun c =>
        min batch (c - ((db.queueCounters.get? args.queue).map (·.running)).getD 0)).getD batch := by
      cases cap with
      | none => exact some'
      | some c =>
        simp only [Option.any_some, decide_eq_true_eq, not_le] at room
        exact le_min some' (Int.le_sub_left_of_add_le room)
    split at run
    · cases run
      exact batched
    · obtain ⟨⟨grant, consumed⟩, consume, run⟩ := seq_eq_ok.mp run
      obtain ⟨wait, rfl, -⟩ | ⟨rfl, tokens, -⟩ := flowConsumeQueue_tokens rfl consume
      · cases run
      · cases run
        exact le_min batched tokens

theorem gates_grant {c : ClaimCall} {env : Env} {db gated : Db} {n : ℤ}
    (run : c.gates env db = .ok (.ok n, gated)) : 1 ≤ n := by
  simp only [ClaimCall.gates, seq_eq_ok] at run
  obtain ⟨-, -, ⟨retry, mid⟩, -, run⟩ := run
  cases retry with
  | some n => cases run
  | none =>
    obtain ⟨⟨⟩, checks, run⟩ := seq_eq_ok.mp run
    have some' : c.args.batch.any (fun n => 1 ≤ n ∧ n ≤ 50) = true := by
      unfold ClaimCall.checks at checks
      split at checks <;> simp only [seq_eq_ok, ensure_eq_ok] at checks
      · obtain ⟨_, -, _, asked, -⟩ := checks
        exact asked
      · obtain ⟨_, ⟨-, asked⟩, -⟩ := checks
        exact asked
    have batch : 1 ≤ c.batch := by
      obtain ⟨n, asked, few⟩ := (Option.any_eq_true _ _).mp some'
      rw [ClaimCall.batch, asked]
      simp only [decide_eq_true_eq] at few
      split
      · exact le_rfl
      · exact few.1
    split at run
    · cases run
    · split at run
      · cases run
      · exact queueGate_grant run batch

theorem Balanced.call {db : Db} (balanced : Balanced queue v) (counted : CountersTrue db)
    (fewer : runningIn queue db ≤ runningIn queue v.db) : Balanced queue { v with db := db } := by
  refine ⟨counted, balanced.sized, fun s member own => ?_⟩
  have := balanced.read s member own
  dsimp only
  omega

/-- A claim that starts reads the counter, and all that the others on its queue were granted is beside it. -/
theorem Balanced.enrol {env : Env} {c : ClaimCall} {n : ℤ} {gated : Db} (balanced : Balanced queue v)
    (grant : 1 ≤ n) : Balanced queue (v.enrol env c n gated) := by
  have told (t : Session) : (if t.queue = c.args.queue then { t with beside := t.beside ++ [n] } else t).queue =
      t.queue ∧ (if t.queue = c.args.queue then { t with beside := t.beside ++ [n] } else t).granted = t.granted := by
    split <;> exact ⟨rfl, rfl⟩
  have kept : grants queue (v.sessions.map fun t =>
      if t.queue = c.args.queue then { t with beside := t.beside ++ [n] } else t) = grants queue v.sessions := by
    simp only [grants, List.filter_map, List.map_map, Function.comp_def, told]
  have total : (grants queue (v.enrol env c n gated).sessions).sum =
      (grants queue v.sessions).sum + if c.args.queue = queue then n else 0 := by
    rw [← kept, Server.enrol]
    simp only [grants, List.filter_append, List.map_append, List.sum_append, List.filter_cons, List.filter_nil,
      decide_eq_true_eq]
    rw [show Session.queue _ = c.args.queue from rfl]
    split <;> simp
  have fresh : (if gated.queueFlow.rows = v.db.queueFlow.rows then [] else
      (gated.queueFlow.get? c.args.queue).toList.map (Effect.flow c.args.queue)).filterMap Effect.started = [] := by
    split
    · rfl
    · cases gated.queueFlow.get? c.args.queue <;> rfl
  refine ⟨balanced.counted, fun t member => ?_, fun t member mine => ?_⟩
  · obtain there | there := List.mem_append.mp member
    · obtain ⟨s, old, rfl⟩ := List.mem_map.mp there
      have sized := balanced.sized s old
      split
      · exact ⟨sized.spent, sized.left, sized.owns, sized.held⟩
      · exact sized
    · cases List.mem_singleton.mp there
      exact ⟨by simp [Session.started, fresh], by dsimp only; omega, by simp [Session.started, fresh],
        fun e here => by cases here⟩
  · rw [total]
    obtain there | there := List.mem_append.mp member
    · obtain ⟨s, old, rfl⟩ := List.mem_map.mp there
      rw [(told s).1] at mine
      have balance := balanced.read s old mine
      rw [(told s).2]
      change (runningIn queue v.db : ℤ) + _ ≤ _
      by_cases same : s.queue = c.args.queue
      · rw [if_pos same, if_pos (same.symm.trans mine), List.sum_append, List.sum_singleton]
        linarith
      · rw [if_neg same, if_neg fun own => same (mine.trans own.symm), add_zero]
        exact balance
    · cases List.mem_singleton.mp there
      have own : c.args.queue = queue := mine
      have read : ((v.db.queueCounters.get? c.args.queue).map (·.running)).getD 0 = (runningIn queue v.db : ℤ) := by
        rw [runningIn, ← balanced.counted queue .running rfl, Db.countersOf, own]
        cases v.db.queueCounters.get? queue <;> rfl
      rw [if_pos own]
      change (runningIn queue v.db : ℤ) + ((grants queue v.sessions).sum + n - n) ≤
        _ + (grants c.args.queue v.sessions).sum
      rw [read, own]
      linarith

theorem Balanced.turn (balanced : Balanced queue v) (here : v.sessions[i]? = some s) (turn : Turn v i a s s') :
    Balanced queue { v with sessions := v.sessions.set i s' } := by
  obtain ⟨own, grant, read, beside⟩ := turn.same
  obtain ⟨before, after, all, -, sets⟩ := split_at here
  have same : grants queue (v.sessions.set i s') = grants queue v.sessions := by
    rw [sets, all]
    simp only [grants, List.filter_append, List.filter_cons, own]
    split <;> simp [grant]
  have member := List.mem_of_getElem? here
  refine ⟨balanced.counted, fun t there => ?_, fun t there mine => ?_⟩
  · obtain there | rfl := List.mem_or_eq_of_mem_set there
    · exact balanced.sized t there
    · exact turn.sized (balanced.sized s member)
  · rw [same]
    obtain there | rfl := List.mem_or_eq_of_mem_set there
    · exact balanced.read t there mine
    · rw [grant, read, beside]
      exact balanced.read s member (own.symm.trans mine)

theorem Balanced.leave {db : Db} (balanced : Balanced queue v) (here : v.sessions[i]? = some s)
    (counted : CountersTrue db) (crowd : String → ℕ)
    (few : (runningIn queue db : ℤ) ≤ runningIn queue v.db + if s.queue = queue then s.granted else 0) :
    Balanced queue ⟨db, v.others i, crowd⟩ := by
  obtain ⟨before, after, all, rest, -⟩ := split_at here
  have lost : (grants queue v.sessions).sum =
      (grants queue (v.others i)).sum + if s.queue = queue then s.granted else 0 := by
    rw [others, rest, all]
    simp only [grants, List.filter_append, List.filter_cons]
    split
    · rename_i own
      simp only [decide_eq_true_eq] at own
      simp [own]
      ring
    · rename_i other
      simp only [decide_eq_true_eq] at other
      simp [other]
  refine ⟨counted, fun t there => balanced.sized t (List.mem_of_mem_eraseIdx there), fun t there mine => ?_⟩
  have := balanced.read t (List.mem_of_mem_eraseIdx there) mine
  dsimp only at there ⊢
  omega

theorem Balanced.step (balanced : Balanced queue v) (ok : v.Ok) (next : v.step a = some w) :
    Balanced queue w := by
  cases step_cases next with
  | call other run =>
    obtain ⟨entries, made⟩ := Command.made run
    refine balanced.call (made.counters balanced.counted).1 ?_
    rw [runningIn_eq, runningIn_eq]
    exact Command.runningOf_le run other (queue_fixed queue)
  | refuse gates =>
    have unseen := ClaimCall.gates_unseen gates
    have jobs : _ = v.db.jobs := congrArg Core.jobs unseen.core
    refine balanced.call (balanced.counted.aside jobs unseen.counters).1 ?_
    rw [runningIn, runningIn, jobs]
  | enter gates => exact balanced.enrol (gates_grant gates)
  | turn here moved => exact balanced.turn here moved
  | @finish i locked s db here finished =>
    have member := List.mem_of_getElem? here
    have own := ok.each s member
    refine balanced.leave here (Session.finish_counted own.waiting finished balanced.counted) _ ?_
    refine ((balanced.sized s member).finish own finished queue).trans ?_
    have := (balanced.sized s member).few
    split_ifs <;> grind
  | abort i =>
    cases here : v.sessions[i]? with
    | none =>
      rw [others, List.eraseIdx_of_length_le (List.getElem?_eq_none_iff.mp here)]
      exact balanced
    | some s =>
      refine balanced.leave here balanced.counted v.crowd ?_
      have := (balanced.sized s (List.mem_of_getElem? here)).few
      split_ifs <;> omega

theorem Balanced.idle {db : Db} (counted : CountersTrue db) : Balanced queue (idle db) :=
  ⟨counted, fun _ member => absurd member List.not_mem_nil, fun _ member => absurd member List.not_mem_nil⟩

theorem Run.balanced {allowed : Server → Action → Prop} {db : Db} (counted : CountersTrue db)
    (run : Run allowed (Server.idle db) v) (queue : String) : Balanced queue v := by
  induction run with
  | start => exact .idle counted
  | step before _ next ih => exact ih.step before.ok next

/-- Only the commit of a claim makes more jobs of a queue run, and then no more than it read, was granted
and had granted beside it. -/
theorem Balanced.raises (balanced : Balanced queue v) (ok : v.Ok) (next : v.step a = some w) :
    (runningIn queue w.db ≤ runningIn queue v.db ∧ v.crowd queue = w.crowd queue) ∨
      ∃ i locked s, a = .finish i locked ∧ v.sessions[i]? = some s ∧ s.queue = queue ∧ s.started ≠ [] ∧
        (runningIn queue w.db : ℤ) ≤ s.read + s.granted + s.beside.sum ∧
        w.crowd queue = s.beside.length + 1 := by
  cases step_cases next with
  | call other run =>
    left
    rw [runningIn_eq, runningIn_eq]
    exact ⟨Command.runningOf_le run other (queue_fixed queue), rfl⟩
  | refuse gates =>
    have jobs : _ = v.db.jobs := congrArg Core.jobs (ClaimCall.gates_unseen gates).core
    exact .inl ⟨by rw [runningIn, runningIn, jobs], rfl⟩
  | enter | turn | abort => exact .inl ⟨le_rfl, rfl⟩
  | @finish i locked s db here finished =>
    have member := List.mem_of_getElem? here
    have bound := (balanced.sized s member).finish (ok.each s member) finished queue
    by_cases own : s.queue = queue ∧ s.started ≠ []
    · rw [if_pos own] at bound
      have read := balanced.read s member own.1
      have others : s.granted ≤ (grants queue v.sessions).sum := by
        refine List.single_le_sum (fun n there => ?_) _ (List.mem_map_of_mem (List.mem_filter.mpr ⟨member, ?_⟩))
        · obtain ⟨t, granted, rfl⟩ := List.mem_map.mp there
          exact le_trans (Int.natCast_nonneg _) (balanced.sized t (List.mem_filter.mp granted).1).few
        · exact decide_eq_true own.1
      refine .inr ⟨i, locked, s, rfl, here, own.1, own.2, by dsimp only; omega, ?_⟩
      dsimp only
      rw [if_neg (by simpa using own.2), if_pos own.1.symm]
    · rw [if_neg own, add_zero] at bound
      refine .inl ⟨by exact_mod_cast bound, ?_⟩
      dsimp only
      grind

end Server

/-- The cap on a queue's running jobs is a fixed one, and whenever a claim commits jobs of the queue, what it
read of the counter, its batch and the batches granted beside it are together no more than the cap and the
number of these claims. -/
def Modest (queue : String) (m : ℤ) (v : Server) (a : Action) : Prop :=
  (v.db.queues.get? queue).bind (·.maxRunning) = some m ∧
    ∀ i locked s, a = .finish i locked → v.sessions[i]? = some s → s.queue = queue → s.started ≠ [] →
      s.read + s.granted + s.beside.sum ≤ m + (s.beside.length + 1)

/-- While claims are modest, a queue overshoots its cap by no more than the number of claims that were in
progress together when its running jobs were last added to. -/
theorem max_running_overshoot {queue : String} {m : ℤ} {db : Db} {v : Server} (counted : CountersTrue db)
    (few : (runningIn queue db : ℤ) ≤ m) (run : Server.Run (Modest queue m) (.idle db) v) :
    (runningIn queue v.db : ℤ) ≤ m + v.crowd queue := by
  induction run with
  | start => exact le_trans few (by simp)
  | step before modest next ih =>
    obtain ⟨fewer, crowd⟩ | ⟨i, locked, s, rfl, here, own, some', bound, crowd⟩ :=
      (before.balanced counted queue).raises before.ok next
    · rw [← crowd]
      exact le_trans (by exact_mod_cast fewer) ih
    · rw [crowd]
      exact bound.trans (modest.2 i locked s rfl here own some')

/-- Two claims read the counter of an idle queue before either commits. -/
def twoReaders (batch : ℤ) : List Action :=
  let loop (i : ℕ) : List Action := [.look i fun _ => false, .check i fun _ => true, .start i]
  let claim : List Action := [.prepare 0] ++ (List.replicate batch.toNat (loop 0)).flatten ++
    [.look 0 fun _ => false, .finish 0 fun _ => false]
  [.enter (.alone .digits 0 10) ⟨.simple "q" batch, none⟩, .enter (.alone .digits 0 11) ⟨.simple "q" batch, none⟩] ++
    claim ++ claim

/-- Six jobs on a queue that is to run three at a time. -/
def sixJobs : List (Time × Command) :=
  (0, .ensureQueue (some "q") (some (.build [("max_running", .ofInt 3)]))) ::
    List.replicate 6 (0, .enqueue (.simple "q"))

/-- Two claims of one job each stay within the bound. -/
theorem max_running_overshoot_pair : ∃ (s : System) (v : Server), System.Reachable .digits anyCall s ∧
    Server.Run (Modest "q" 3) (.idle s.db) v ∧ runningIn "q" v.db = 2 ∧ v.crowd "q" = 2 ∧
    (runningIn "q" v.db : ℤ) ≤ 3 + v.crowd "q" := by
  have played : System.plays .digits sixJobs (.installed .digits 0) (fun s =>
      decide (runningIn "q" s.db = 0) &&
      (Server.play (fun u => (u.db.queues.get? "q").bind (·.maxRunning) = some 3 &&
        u.sessions.all fun s => s.read + s.granted + s.beside.sum ≤ 3 + (s.beside.length + 1)) (twoReaders 1)
        (.idle s.db)).any fun v => runningIn "q" v.db = 2 && v.crowd "q" = 2) = true := by decide +kernel
  obtain ⟨s, run, there⟩ := System.plays_run anyCall played fun _ _ _ => trivial
  simp only [Bool.and_eq_true, decide_eq_true_eq] at there
  obtain ⟨free, there⟩ := there
  obtain ⟨v, plays, there⟩ := (Option.any_eq_true _ _).mp there
  simp only [Bool.and_eq_true, decide_eq_true_eq] at there
  have claims : Server.Run (Modest "q" 3) (.idle s.db) v := by
    refine Server.play_run (fun u a needed => ?_) .start plays
    simp only [Bool.and_eq_true, decide_eq_true_eq, List.all_eq_true] at needed
    exact ⟨needed.1, fun i locked s _ here _ _ => needed.2 s (List.mem_of_getElem? here)⟩
  have counted := (run.backfilled (Backfilled.installed .digits 0)).queues
  exact ⟨s, v, ⟨0, run⟩, claims, there.1, there.2, max_running_overshoot counted (by simp [free]) claims⟩

/-- Two claims of three jobs each take a queue with a cap of three to six running jobs. -/
theorem max_running_overshoot_batches : ∃ (s : System) (v : Server), System.Reachable .digits anyCall s ∧
    Server.Run (fun u _ => (u.db.queues.get? "q").bind (·.maxRunning) = some 3) (.idle s.db) v ∧
    runningIn "q" s.db = 0 ∧ v.crowd "q" = 2 ∧ ¬(runningIn "q" v.db : ℤ) ≤ 3 + v.crowd "q" := by
  have played : System.plays .digits sixJobs (.installed .digits 0) (fun s =>
      decide (runningIn "q" s.db = 0) &&
      (Server.play (fun u => (u.db.queues.get? "q").bind (·.maxRunning) = some 3) (twoReaders 3)
        (.idle s.db)).any fun v => runningIn "q" v.db = 6 && v.crowd "q" = 2) = true := by decide +kernel
  obtain ⟨s, run, there⟩ := System.plays_run anyCall played fun _ _ _ => trivial
  simp only [Bool.and_eq_true, decide_eq_true_eq] at there
  obtain ⟨free, there⟩ := there
  obtain ⟨v, plays, there⟩ := (Option.any_eq_true _ _).mp there
  simp only [Bool.and_eq_true, decide_eq_true_eq] at there
  have claims : Server.Run (fun u _ => (u.db.queues.get? "q").bind (·.maxRunning) = some 3) (.idle s.db) v :=
    Server.play_run (fun u _ needed => by simpa using needed) .start plays
  refine ⟨s, v, ⟨0, run⟩, claims, free, there.2, ?_⟩
  rw [there.1, there.2]
  decide

end Taskq
