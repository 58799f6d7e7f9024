import Taskq.Invariants.Running

/-! Claim transactions side by side. Every statement of a claim sees what was committed before it and what
its own transaction wrote; the rows that it locked and its advisory locks are held to the commit, and what
it wrote is seen by nobody else until then. Every other call commits in one piece. -/
namespace Taskq
open Relational

namespace ClaimCall

/-- The checks that a claim makes of its own arguments. -/
def checks (c : ClaimCall) : Call Unit :=
  match c.hashes with
  | none => do
    ensure (workerOk c.args.workerId) workerRequired
    ensure (c.args.batch.any fun n => 1 ≤ n ∧ n ≤ 50) (tq422 "claim batch must be 1..50")
    ensure (c.args.leaseSeconds.all fun n => 15 ≤ n ∧ n ≤ 86400)
      (tq422 "lease override must be 15..86400 seconds")
    ensure (c.args.jobTypes.all fun ts => 1 ≤ ts.length ∧ ts.length ≤ 20)
      (tq422 "job type filter must have 1..20 entries")
    ensure (c.args.affinityKey.all (·.length ≤ 120)) (tq422 "affinity_key exceeds 120 chars")
  | some hashes => do
    ensure (workerOk c.args.workerId ∧ c.args.batch.any fun n => 1 ≤ n ∧ n ≤ 50)
      (tq422 "invalid worker or claim batch")
    ensure (c.args.leaseSeconds.all (fun n => 15 ≤ n ∧ n ≤ 86400) ∧
      c.args.jobTypes.all (fun ts => 1 ≤ ts.length ∧ ts.length ≤ 20) ∧
      c.args.affinityKey.all (·.length ≤ 120)) (tq422 "invalid claim filter")
    ensure (hashes.length ≤ 32 ∧ hashes.Nodup ∧ hashes.all isSha256)
      (tq422 "supported continuation policies must be 0..32 distinct hashes")

/-- A claim up to its loop: it is answered at once, or it may start that many jobs. -/
def gates (env : Env) (c : ClaimCall) (db : Db) : Call (Except ClaimBatch ℤ × Db) := do
  ensure env.attested attestationRequired
  let (retry, db) ← breakerGate env c.args.queue db
  match retry with
  | some n => .ok (.error (throttledOrEmpty c.args.acceptThrottled (some n)), db)
  | none => do
    c.checks
    match db.queues.get? c.args.queue with
    | none => .ok (.error ⟨.unknownQueue, [], none⟩, db)
    | some q =>
      if q.pausedAt.isSome then .ok (.error ⟨.paused, [], none⟩, db)
      else queueGate env c.args q c.batch db

theorem checks_body (env : Env) (c : ClaimCall) (db : Db) :
    (match c.hashes with
    | none => claimJobsUnattested env c.args db
    | some hashes => claimJobsWithPoliciesUnattested env c.args hashes db) =
      c.checks >>= fun _ => claimBody env c.args db (c.pick env) := by
  obtain ⟨args, hashes⟩ := c
  cases hashes with
  | none =>
    simp only [checks, claimJobsUnattested, bind_assoc]
    rfl
  | some hashes =>
    simp only [checks, claimJobsWithPoliciesUnattested, bind_assoc]
    rfl

/-- A claim is its gates and its loop. -/
theorem run_gates (env : Env) (c : ClaimCall) (db : Db) :
    c.run env db = c.gates env db >>= fun r => match r.1 with
      | .error answer => .ok (answer, r.2)
      | .ok n => runClaim env c.args (c.pick env n r.2) n r.2 := by
  have whole : c.run env db = gatedClaim env c.args (fun db =>
      c.checks >>= fun _ => claimBody env c.args db (c.pick env)) db := by
    simp only [← checks_body env c]
    obtain ⟨args, hashes⟩ := c
    cases hashes <;> rfl
  rw [whole, gatedClaim, gates, bind_assoc]
  refine congrArg _ (funext fun _ => ?_)
  rw [bind_assoc]
  refine congrArg _ (funext fun r => ?_)
  obtain ⟨retry, gated⟩ := r
  cases retry with
  | some n => rfl
  | none =>
    rw [bind_assoc]
    refine bind_congr fun _ => ?_
    unfold claimBody
    cases gated.queues.get? c.args.queue with
    | none => rfl
    | some q =>
      dsimp only
      split <;> rfl

end ClaimCall

/-- What a claim transaction has written and not committed. -/
inductive Effect where
  | flow (queue : String) (row : QueueFlow)
  | token (key : String) (tat : Option ℚ)
  | start (id : Uuid) (job : Job)

def Effect.apply (env : Env) (args : ClaimArgs) : Effect → Db → Call Db
  | .flow queue row, db => .ok (db.putFlow queue row)
  | .token key tat, db => .ok { db with flowState := db.flowState.put key tat }
  | .start id job, db => (startAttempt env args id job db).map (·.2)

/-- The job that the write starts. -/
def Effect.started : Effect → Option (Uuid × Job)
  | .start id job => some (id, job)
  | _ => none

/-- The tables with the writes of a transaction. -/
def replay (env : Env) (args : ClaimArgs) : List Effect → Db → Call Db
  | [], db => .ok db
  | effect :: effects, db => do
    let db ← effect.apply env args db
    replay env args effects db

/-- Where a claim transaction stands in its loop. -/
inductive Phase where
  | entered
  | scanning
  | picked (id : Uuid) (job : Job)
  | cleared (id : Uuid) (job : Job)
  | done

/-- A claim transaction in progress. The last three fields are a record that no statement reads: the cap
that its last check found for each concurrency key, the running counter that its gates found, and the
batches granted to the other claims on its queue that were in progress at some time beside it. -/
structure Session where
  env : Env
  call : ClaimCall
  granted : ℤ
  phase : Phase
  prepared : Db
  scan : Scan
  scans : ℕ
  wanted : ℤ
  effects : List Effect
  rows : List Uuid
  locks : List String
  caps : Table String ℤ
  read : ℤ
  beside : List ℤ

namespace Session

variable (s : Session)

def queue : String := s.call.args.queue

/-- The tables as the transaction sees them. -/
def view (db : Db) : Call Db := replay s.env s.call.args s.effects db

/-- The jobs that the transaction has started. -/
def started : List (Uuid × Job) := s.effects.filterMap Effect.started

/-- The saturated keys and the aging of the queue are read. -/
def prepare (db : Db) : Option Session :=
  match s.phase with
  | .entered => do
    let view ← (s.view db).toOption
    some { s with phase := .scanning, prepared := view }
  | _ => none

/-- One scan for a candidate, whose row is locked; rows that others lock are passed over. -/
def look (locked : Uuid → Bool) (db : Db) : Option Session :=
  match s.phase with
  | .scanning =>
    if s.scans = 0 ∨ s.wanted ≤ 0 then some { s with phase := .done }
    else do
      let view ← (s.view db).toOption
      let (candidate, scan) ←
        (s.call.pick { s.env with locked := locked } s.granted s.prepared s.scan view.toCore).toOption
      match candidate with
      | none => some { s with phase := .done }
      | some (id, job) =>
        some { s with
          phase := .picked id job, scan := scan, scans := s.scans - 1, rows := s.rows ++ [id] }
  | _ => none

end Session

/-- The advisory locks that a candidate's gates take. -/
def locksTaken (env : Env) (job : JobRow) (db : Db) : List String :=
  let slots := job.concurrencyKey.toList.map ("taskq.ck:" ++ ·)
  let free := job.concurrencyKey.all fun key => runningWithKey db.toCore key < concurrencyCap db key
  let tokens := (job.flowKey.toList.filter fun key => (db.flowLimits.get? key).isSome).map ("taskq.fk:" ++ ·)
  slots.filter env.tryLock ++ if slots.all env.tryLock ∧ free then tokens.filter env.tryLock else []

/-- The bucket row that a candidate's gates write. -/
def tokenTaken (env : Env) (job : JobRow) (db : Db) : List Effect :=
  (job.flowKey.toList.filter fun key => (locksTaken env job db).contains ("taskq.fk:" ++ key)).map fun key =>
    .token key (((admitCandidate env job db).2.flowState.get? key).getD none)

namespace Session

variable (s : Session)

/-- The concurrency key and the flow key of the candidate, which is started next or skipped. -/
def check (tryLock : String → Bool) (db : Db) : Option Session :=
  match s.phase with
  | .picked id job => do
    let view ← (s.view db).toOption
    let env := { s.env with tryLock := tryLock }
    let s := { s with
      locks := s.locks ++ locksTaken env job.toJobRow view
      effects := s.effects ++ tokenTaken env job.toJobRow view }
    if (admitCandidate env job.toJobRow view).1 then
      some { s with
        phase := .cleared id job
        caps := (job.concurrencyKey.map fun key => s.caps.put key (concurrencyCap view key)).getD s.caps }
    else some { s with phase := .scanning, scan := { s.scan with skip := s.scan.skip ++ [id] } }
  | _ => none

/-- The start of the candidate's attempt. -/
def start (db : Db) : Option Session :=
  match s.phase with
  | .cleared id job => do
    let view ← (s.view db).toOption
    let _ ← (startAttempt s.env s.call.args id job view).toOption
    some { s with phase := .scanning, wanted := s.wanted - 1, effects := s.effects ++ [.start id job] }
  | _ => none

/-- The end of the call; one that started nothing reaps a few expired leases. -/
def finish (locked : Uuid → Bool) (db : Db) : Option Db :=
  match s.phase with
  | .done => do
    let view ← (s.view db).toOption
    if s.started.isEmpty then ((reapExpired { s.env with locked := locked } (some 5) view).map (·.2)).toOption
    else some view
  | _ => none

/-- The call leaves alone every row that the transaction has locked. -/
def spared (db db' : Db) : Bool :=
  s.rows.all (fun id => db'.jobs.get? id = db.jobs.get? id) && s.effects.all fun
    | .flow queue _ => db'.queueFlow.get? queue = db.queueFlow.get? queue
    | _ => true

end Session

/-- The committed tables and the claims in progress; and, as a record that nothing reads, how many claims on
a queue were in progress together when one of them last started jobs. -/
structure Server where
  db : Db
  sessions : List Session
  crowd : String → ℕ

/-- What happens next. The predicates say which rows and advisory locks others hold besides the claims. -/
inductive Action where
  | call (env : Env) (command : Command)
  | enter (env : Env) (c : ClaimCall)
  | prepare (i : ℕ)
  | look (i : ℕ) (locked : Uuid → Bool)
  | check (i : ℕ) (tryLock : String → Bool)
  | start (i : ℕ)
  | finish (i : ℕ) (locked : Uuid → Bool)
  | abort (i : ℕ)

namespace Server

variable (v : Server)

/-- The claims in progress besides one of them. -/
def others (i : ℕ) : List Session := v.sessions.eraseIdx i

/-- Rows that others have locked. -/
def held (sessions : List Session) (locked : Uuid → Bool) (id : Uuid) : Bool :=
  locked id || sessions.any (·.rows.contains id)

/-- Advisory locks that are free. -/
def free (sessions : List Session) (tryLock : String → Bool) (name : String) : Bool :=
  tryLock name && !sessions.any (·.locks.contains name)

/-- One of the claims moves on. -/
def turn (i : ℕ) (move : Session → Option Session) : Option Server := do
  let s ← v.sessions[i]?
  let s' ← move s
  some { v with sessions := v.sessions.set i s' }

/-- A claim that its gates let through is in progress; the others on its queue are told. -/
def enrol (env : Env) (c : ClaimCall) (n : ℤ) (gated : Db) : Server :=
  let peers := v.sessions.filter (·.queue = c.args.queue)
  let flows := (gated.queueFlow.get? c.args.queue).toList.map (.flow c.args.queue)
  { v with sessions :=
      v.sessions.map (fun s => if s.queue = c.args.queue then { s with beside := s.beside ++ [n] } else s) ++
        [⟨env, c, n, .entered, gated, ⟨[], c.args.affinityKey⟩, (n + 20).toNat, n,
          if gated.queueFlow.rows = v.db.queueFlow.rows then [] else flows, [], [], .empty,
          ((v.db.queueCounters.get? c.args.queue).map (·.running)).getD 0, peers.map (·.granted)⟩] }

/-- The next state, when the action is possible. -/
def step : Action → Option Server
  | .call env command => do
    let db ← (command.exec { env with locked := held v.sessions env.locked } v.db).toOption
    if command.claim.isNone ∧ v.sessions.all (·.spared v.db db) then some { v with db := db } else none
  | .enter env c => do
    let (gate, gated) ← (c.gates env v.db).toOption
    if v.sessions.all (·.spared v.db gated) then
      match gate with
      | .error _ => some { v with db := gated }
      | .ok n => some (v.enrol env c n gated)
    else none
  | .prepare i => v.turn i fun s => s.prepare v.db
  | .look i locked => v.turn i fun s => s.look (held (v.others i) locked) v.db
  | .check i tryLock => v.turn i fun s => s.check (free (v.others i) tryLock) v.db
  | .start i => v.turn i fun s => s.start v.db
  | .finish i locked => do
    let s ← v.sessions[i]?
    let db ← s.finish (held (v.others i) locked) v.db
    if (v.others i).all (·.spared v.db db) then
      some ⟨db, v.others i, if s.started.isEmpty then v.crowd
        else fun queue => if queue = s.queue then s.beside.length + 1 else v.crowd queue⟩
    else none
  | .abort i => if i < v.sessions.length then some { v with sessions := v.others i } else none

/-- Any number of actions, each allowed where it is taken. -/
inductive Run (allowed : Server → Action → Prop) (v : Server) : Server → Prop
  | start : Run allowed v v
  | step {u w : Server} {a : Action} (before : Run allowed v u) (permitted : allowed u a)
      (next : u.step a = some w) : Run allowed v w

end Server

theorem toOption_eq_some {α : Type} {x : Call α} {a : α} : x.toOption = some a ↔ x = .ok a := by
  cases x <;> simp [Except.toOption]

namespace Session

variable {s s' : Session} {db db' : Db}

theorem prepare_cases (next : s.prepare db = some s') :
    ∃ view, s.phase = .entered ∧ s.view db = .ok view ∧ s' = { s with phase := .scanning, prepared := view } := by
  unfold prepare at next
  split at next
  · rename_i phase
    obtain ⟨view, seen, next⟩ := Option.bind_eq_some_iff.mp next
    cases next
    exact ⟨view, phase, toOption_eq_some.mp seen, rfl⟩
  · cases next

theorem look_cases {locked : Uuid → Bool} (next : s.look locked db = some s') :
    s' = { s with phase := .done } ∨ ∃ view id job scan, 0 < s.wanted ∧ s.view db = .ok view ∧
      s.call.pick { s.env with locked := locked } s.granted s.prepared s.scan view.toCore =
        .ok (some (id, job), scan) ∧
      s' = { s with
        phase := .picked id job, scan := scan, scans := s.scans - 1, rows := s.rows ++ [id] } := by
  unfold look at next
  split at next
  · split at next
    · cases next
      exact .inl rfl
    · rename_i more
      obtain ⟨view, seen, next⟩ := Option.bind_eq_some_iff.mp next
      obtain ⟨⟨candidate, scan⟩, picked, next⟩ := Option.bind_eq_some_iff.mp next
      rw [toOption_eq_some] at seen picked
      cases candidate with
      | none =>
        cases next
        exact .inl rfl
      | some e =>
        cases next
        exact .inr ⟨view, _, _, scan, by omega, seen, picked, rfl⟩
  · cases next

theorem check_cases {tryLock : String → Bool} (next : s.check tryLock db = some s') :
    ∃ id job view env, env = { s.env with tryLock := tryLock } ∧ s.phase = .picked id job ∧
      s.view db = .ok view ∧
      ((admitCandidate env job.toJobRow view).1 = true ∧
        s' = { s with
          locks := s.locks ++ locksTaken env job.toJobRow view
          effects := s.effects ++ tokenTaken env job.toJobRow view, phase := .cleared id job
          caps := (job.concurrencyKey.map fun key => s.caps.put key (concurrencyCap view key)).getD s.caps } ∨
      s' = { s with
        locks := s.locks ++ locksTaken env job.toJobRow view
        effects := s.effects ++ tokenTaken env job.toJobRow view, phase := .scanning
        scan := { s.scan with skip := s.scan.skip ++ [id] } }) := by
  unfold check at next
  split at next
  · rename_i id job phase
    obtain ⟨view, seen, next⟩ := Option.bind_eq_some_iff.mp next
    dsimp only at next
    split at next
    · rename_i admitted
      cases next
      exact ⟨id, job, view, _, rfl, phase, toOption_eq_some.mp seen, .inl ⟨admitted, rfl⟩⟩
    · cases next
      exact ⟨id, job, view, _, rfl, phase, toOption_eq_some.mp seen, .inr rfl⟩
  · cases next

theorem start_cases (next : s.start db = some s') :
    ∃ id job, s.phase = .cleared id job ∧
      s' = { s with phase := .scanning, wanted := s.wanted - 1, effects := s.effects ++ [.start id job] } := by
  unfold start at next
  split at next
  · rename_i id job phase
    obtain ⟨view, -, next⟩ := Option.bind_eq_some_iff.mp next
    obtain ⟨_, -, next⟩ := Option.bind_eq_some_iff.mp next
    cases next
    exact ⟨id, job, phase, rfl⟩
  · cases next

theorem finish_cases {locked : Uuid → Bool} (next : s.finish locked db = some db') :
    ∃ view, s.phase = .done ∧ s.view db = .ok view ∧ (s.started ≠ [] ∧ db' = view ∨
      s.started = [] ∧ ∃ n, reapExpired { s.env with locked := locked } (some 5) view = .ok (n, db')) := by
  unfold finish at next
  split at next
  · rename_i phase
    obtain ⟨view, seen, next⟩ := Option.bind_eq_some_iff.mp next
    refine ⟨view, phase, toOption_eq_some.mp seen, ?_⟩
    split at next
    · rename_i nothing
      exact .inr ⟨List.isEmpty_iff.mp nothing, map_snd_eq_ok.mp (toOption_eq_some.mp next)⟩
    · rename_i some'
      cases next
      exact .inl ⟨by simpa using some', rfl⟩
  · cases next

end Session

namespace Server

variable {v w : Server} {a : Action}

/-- A claim in progress moves on. -/
inductive Turn (v : Server) (i : ℕ) : Action → Session → Session → Prop
  | prepare {s s' : Session} (next : s.prepare v.db = some s') : Turn v i (.prepare i) s s'
  | look {s s' : Session} {locked : Uuid → Bool} (next : s.look (held (v.others i) locked) v.db = some s') :
      Turn v i (.look i locked) s s'
  | check {s s' : Session} {tryLock : String → Bool}
      (next : s.check (free (v.others i) tryLock) v.db = some s') : Turn v i (.check i tryLock) s s'
  | start {s s' : Session} (next : s.start v.db = some s') : Turn v i (.start i) s s'

/-- What an action can do. -/
inductive Next (v : Server) : Action → Server → Prop
  | call {env : Env} {command : Command} {db : Db} (other : command.claim = none)
      (run : command.exec { env with locked := held v.sessions env.locked } v.db = .ok db)
      (spared : ∀ s ∈ v.sessions, s.spared v.db db = true) : Next v (.call env command) { v with db := db }
  | refuse {env : Env} {c : ClaimCall} {answer : ClaimBatch} {gated : Db}
      (gates : c.gates env v.db = .ok (.error answer, gated))
      (spared : ∀ s ∈ v.sessions, s.spared v.db gated = true) : Next v (.enter env c) { v with db := gated }
  | enter {env : Env} {c : ClaimCall} {n : ℤ} {gated : Db} (gates : c.gates env v.db = .ok (.ok n, gated)) :
      Next v (.enter env c) (v.enrol env c n gated)
  | turn {a : Action} {i : ℕ} {s s' : Session} (here : v.sessions[i]? = some s) (moved : Turn v i a s s') :
      Next v a { v with sessions := v.sessions.set i s' }
  | finish {i : ℕ} {locked : Uuid → Bool} {s : Session} {db : Db} (here : v.sessions[i]? = some s)
      (finished : s.finish (held (v.others i) locked) v.db = some db)
      (spared : ∀ t ∈ v.others i, t.spared v.db db = true) : Next v (.finish i locked) ⟨db, v.others i,
        if s.started.isEmpty then v.crowd
        else fun queue => if queue = s.queue then s.beside.length + 1 else v.crowd queue⟩
  | abort (i : ℕ) : Next v (.abort i) { v with sessions := v.others i }

theorem turn_eq {i : ℕ} {move : Session → Option Session} (next : v.turn i move = some w) :
    ∃ s s', v.sessions[i]? = some s ∧ move s = some s' ∧ w = { v with sessions := v.sessions.set i s' } := by
  obtain ⟨s, here, next⟩ := Option.bind_eq_some_iff.mp next
  obtain ⟨s', moved, next⟩ := Option.bind_eq_some_iff.mp next
  cases next
  exact ⟨s, s', here, moved, rfl⟩

theorem step_cases (next : v.step a = some w) : Next v a w := by
  cases a with
  | call env command =>
    obtain ⟨db, run, next⟩ := Option.bind_eq_some_iff.mp next
    rw [toOption_eq_some] at run
    split at next
    · rename_i allowed
      cases next
      exact .call (Option.isNone_iff_eq_none.mp allowed.1) run (List.all_eq_true.mp allowed.2)
    · cases next
  | enter env c =>
    obtain ⟨⟨gate, gated⟩, gates, next⟩ := Option.bind_eq_some_iff.mp next
    rw [toOption_eq_some] at gates
    dsimp only at next
    split at next
    · rename_i spared
      cases gate <;> cases next
      · exact .refuse gates (List.all_eq_true.mp spared)
      · exact .enter gates
    · cases next
  | prepare i =>
    obtain ⟨s, s', here, moved, rfl⟩ := turn_eq next
    exact .turn here (.prepare moved)
  | look i locked =>
    obtain ⟨s, s', here, moved, rfl⟩ := turn_eq next
    exact .turn here (.look moved)
  | check i tryLock =>
    obtain ⟨s, s', here, moved, rfl⟩ := turn_eq next
    exact .turn here (.check moved)
  | start i =>
    obtain ⟨s, s', here, moved, rfl⟩ := turn_eq next
    exact .turn here (.start moved)
  | finish i locked =>
    obtain ⟨s, here, next⟩ := Option.bind_eq_some_iff.mp next
    obtain ⟨db, finished, next⟩ := Option.bind_eq_some_iff.mp next
    split at next
    · rename_i spared
      cases next
      exact .finish here finished (List.all_eq_true.mp spared)
    · cases next
  | abort i =>
    simp only [step] at next
    split at next <;> cases next
    exact .abort i

/-- A server without claims in progress. -/
def idle (db : Db) : Server := ⟨db, [], fun _ => 0⟩

/-- The server after some actions, when all of them are possible and each finds what it needs. -/
def play (needed : Server → Bool) : List Action → Server → Option Server
  | [], v => some v
  | a :: rest, v => if needed v then (v.step a).bind (play needed rest) else none

theorem play_run {allowed : Server → Action → Prop} {needed : Server → Bool} {actions : List Action}
    (permitted : ∀ u a, needed u = true → allowed u a) {u : Server} (before : Run allowed v u)
    (played : play needed actions u = some w) : Run allowed v w := by
  induction actions generalizing u with
  | nil =>
    cases played
    exact before
  | cons a rest ih =>
    rw [play] at played
    split at played
    · rename_i here
      obtain ⟨t, next, played⟩ := Option.bind_eq_some_iff.mp played
      exact ih (before.step (permitted u a here) next) played
    · cases played

end Server

end Taskq
