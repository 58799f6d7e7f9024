import Taskq.Http.Hub

/-! No long-poll hint is lost, in every interleaving of handlers, notifications, lost sessions and shutdown: the
session listens for every prepared queue, and a handler that subscribes after a hint finds its event set. -/
namespace Taskq.Http

variable {ι : Type}

section Registration

variable {l l' : Listener ι} {i : ι} {queue : String} {r : Registration ι} {reply : Reply}

/-- The session listens for the queue, and so does the one that is being made or that comes next. -/
structure Listener.Covers (l : Listener ι) (queue : String) : Prop where
  link : ∀ listening, l.link = .open listening → queue ∈ listening
  waiting : ∀ requested, l.monitor = .waiting requested → queue ∈ requested ∨ queue ∈ l.channels
  dialing : ∀ targets, l.monitor = .dialing targets → queue ∈ targets
  first : l.monitor = .none → l.closed = false → queue ∈ l.channels

/-- What holds of the listener between any two steps. -/
structure Listener.Good (l : Listener ι) : Prop where
  dialing : ∀ targets, l.monitor = .dialing targets → l.busy = true ∧ targets = l.channels ∧
    l.sourceClosed = false ∧ ∀ r, l.registration = some r → r.place = .joining
  connecting : ∀ r, l.registration = some r → r.place = .connecting → l.monitor = .none ∧ r.queue ∈ l.channels
  listening : ∀ r, l.registration = some r → r.place = .listening → l.busy = true ∧ r.queue ∈ l.channels
  heard : ∀ listening, l.link = .open listening → ∀ queue ∈ l.channels, queue ∈ listening ∨
    ∃ r, l.registration = some r ∧ r.place = .listening ∧ r.queue = queue
  known : ∀ r, l.registration = some r → r.queue ∈ l.queues ∧ l.closed = false
  settled : ∀ queue ∈ l.queues, (∀ r, l.registration = some r → r.queue ≠ queue) → l.sourceClosed = false →
    l.Covers queue
  quiet : l.monitor = .none → l.closed = false → l.link.isOpen = false
  ended : l.sourceClosed = true → l.closed = true ∧ l.link = .none

theorem Listener.good_idle : (Listener.idle : Listener ι).Good where
  dialing := nofun
  connecting := nofun
  listening := nofun
  heard := nofun
  known := nofun
  settled := fun _ member => nomatch member
  quiet := fun _ _ => rfl
  ended := nofun

theorem Link.open_isOpen {link : Link} {listening : Finset String} (opened : link = .open listening) :
    link.isOpen = true := opened ▸ rfl

theorem Listener.Covers.of_closed_link (shut : l.link.isOpen = false) (sleeps : l.monitor = .sleeping) :
    l.Covers queue where
  link := fun listening opened => by rw [Link.open_isOpen opened] at shut; cases shut
  waiting := fun _ waits => nomatch sleeps.symm.trans waits
  dialing := fun _ dials => nomatch sleeps.symm.trans dials
  first := fun none' => nomatch sleeps.symm.trans none'

/-- A registration that begins, or needs none. -/
theorem Listener.Good.ensureQueue (good : l.Good) (free : l.registration = none) :
    (l.ensureQueue i queue).2.Good := by
  have unregistered (other : String) (r : Registration ι) (held : l.registration = some r) : r.queue ≠ other :=
    nomatch free.symm.trans held
  unfold Listener.ensureQueue
  dsimp only
  split_ifs with closed known none' refuses
  · exact good
  · exact good
  · have running : l.closed = false := eq_false_of_ne_true closed
    have shut := good.quiet none' running
    refine ⟨nofun, fun r held => ?_, fun r held => ?_, fun listening opened => ?_, fun r held => ?_, ?_, nofun, good.ended⟩
    · exact nomatch free.symm.trans held
    · exact nomatch free.symm.trans held
    · exact absurd (Link.open_isOpen opened) (ne_true_of_eq_false shut)
    · exact nomatch free.symm.trans held
    · exact fun _ _ _ _ => .of_closed_link shut rfl
  · have running : l.closed = false := eq_false_of_ne_true closed
    have shut := good.quiet none' running
    refine ⟨fun _ dials => (nomatch none'.symm.trans dials), fun r held _ => ?_, fun r held place => ?_,
      fun listening opened => ?_, fun r held => ?_, fun other member apart sourced => ?_, fun _ _ => shut, good.ended⟩
    · cases held
      exact ⟨none', Finset.mem_insert_self _ _⟩
    · cases held
      cases place
    · exact absurd (Link.open_isOpen opened) (ne_true_of_eq_false shut)
    · cases held
      exact ⟨Finset.mem_insert_self _ _, running⟩
    · have older : other ∈ l.queues := (Finset.mem_insert.mp member).resolve_left fun same => apart _ rfl same.symm
      have covers := good.settled other older (unregistered other) sourced
      exact ⟨covers.link, fun _ waits => (nomatch none'.symm.trans waits),
        fun _ dials => (nomatch none'.symm.trans dials), fun _ _ => Finset.mem_insert_of_mem (covers.first none' running)⟩
  · have running : l.closed = false := eq_false_of_ne_true closed
    refine ⟨fun targets dials => ?_, fun r held place => ?_, fun r held place => ?_, fun listening opened other member => ?_,
      fun r held => ?_, fun other member apart sourced => ?_, good.quiet, good.ended⟩
    · obtain ⟨busy, same, sourced, -⟩ := good.dialing targets dials
      refine ⟨busy, same, sourced, fun r held => ?_⟩
      cases held
      rfl
    · cases held
      cases place
    · cases held
      cases place
    · obtain here | ⟨r, held, -⟩ := good.heard listening opened other member
      · exact .inl here
      · exact nomatch free.symm.trans held
    · cases held
      exact ⟨Finset.mem_insert_self _ _, running⟩
    · have older : other ∈ l.queues := (Finset.mem_insert.mp member).resolve_left fun same => apart _ rfl same.symm
      have covers := good.settled other older (unregistered other) sourced
      exact ⟨covers.link, covers.waiting, covers.dialing, covers.first⟩

/-- A queue is known and not on its way. -/
def Listener.Settled (l : Listener ι) (queue : String) : Prop :=
  queue ∈ l.queues ∧ ∀ r, l.registration = some r → r.queue ≠ queue

theorem Listener.ensureQueue_settled (free : l.registration = none)
    (returns : (l.ensureQueue i queue).1 = .returned) : (l.ensureQueue i queue).2.Settled queue := by
  unfold Listener.ensureQueue at returns ⊢
  dsimp only at returns ⊢
  split_ifs at returns ⊢ with closed known none' refuses
  · exact ⟨known, fun r held => nomatch free.symm.trans held⟩
  · exact ⟨Finset.mem_insert_self _ _, fun r held => nomatch free.symm.trans held⟩

/-- The steps at which a registration stops half-way. -/
def Registration.stops (r : Registration ι) (succeeds : Bool) : Bool :=
  match r.place with
  | .connecting => false
  | .joining => !isQueueName r.queue
  | .listening => !succeeds

/-- The lock is given back: its queue is settled if it is covered. -/
theorem Listener.Good.release (good : l.Good) (held : l.registration = some r)
    (covered : l.sourceClosed = false → l.Covers r.queue) {busy : Bool}
    (lock : r.place = .joining → busy = l.busy) : ({ l with registration := none, busy := busy } : Listener ι).Good where
  dialing := fun targets dials => by
    obtain ⟨locked, same, sourced, joining⟩ := good.dialing targets dials
    exact ⟨(lock (joining r held)).trans locked, same, sourced, nofun⟩
  connecting := nofun
  listening := nofun
  heard := fun listening opened other member => by
    obtain here | ⟨r', held', -, rfl⟩ := good.heard listening opened other member
    · exact .inl here
    · cases held.symm.trans held'
      have sourced : l.sourceClosed = false := eq_false_of_ne_true fun closed =>
        nomatch opened.symm.trans (good.ended closed).2
      exact .inl ((covered sourced).link listening opened)
  known := nofun
  settled := fun other member _ sourced => by
    by_cases own : r.queue = other
    · subst own
      have covers := covered sourced
      exact ⟨covers.link, covers.waiting, covers.dialing, covers.first⟩
    · have apart (r' : Registration ι) (held' : l.registration = some r') : r'.queue ≠ other := by
        cases held.symm.trans held'
        exact own
      have covers := good.settled other member apart sourced
      exact ⟨covers.link, covers.waiting, covers.dialing, covers.first⟩
  quiet := good.quiet
  ended := good.ended

/-- While the first session is made, its queue is covered. -/
theorem Listener.Good.covers_connecting (good : l.Good) (held : l.registration = some r)
    (place : r.place = .connecting) : l.Covers r.queue := by
  obtain ⟨none', member⟩ := good.connecting r held place
  have shut := good.quiet none' (good.known r held).2
  refine ⟨fun listening opened => ?_, fun _ waits => (nomatch none'.symm.trans waits),
    fun _ dials => (nomatch none'.symm.trans dials), fun _ _ => member⟩
  exact absurd (Link.open_isOpen opened) (ne_true_of_eq_false shut)

theorem Listener.Good.abandon (good : l.Good) (held : l.registration = some r)
    (covered : r.place ≠ .connecting → l.sourceClosed = false → l.Covers r.queue) : (l.abandon r).Good := by
  refine good.release held (fun sourced => ?_) fun joining => if_pos joining
  by_cases place : r.place = .connecting
  · exact good.covers_connecting held place
  · exact covered place sourced

/-- A registration goes on, and at most its own queue is left uncovered. -/
theorem Listener.Good.resume {succeeds : Bool} (good : l.Good) (held : l.registration = some r)
    (covered : r.stops succeeds = true → l.sourceClosed = false → l.Covers r.queue)
    (run : l.resume r succeeds = some (reply, l')) : l'.Good := by
  have running : l.closed = false := (good.known r held).2
  have sourced : l.sourceClosed = false := eq_false_of_ne_true fun closed =>
    Bool.false_ne_true (running.symm.trans (good.ended closed).1)
  have apart {other : String} (own : r.queue ≠ other) (r' : Registration ι) (held' : l.registration = some r') :
      r'.queue ≠ other := by
    cases held.symm.trans held'
    exact own
  obtain ⟨i, queue, place⟩ := r
  cases place with
  | connecting =>
    obtain ⟨none', member⟩ := good.connecting _ held rfl
    have shut := good.quiet none' running
    cases succeeds with
    | true =>
      cases run
      refine ⟨nofun, nofun, nofun, fun listening opened other known => ?_, nofun, fun other known _ _ => ?_, nofun, fun closed => ?_⟩
      · cases opened
        exact .inl known
      · refine ⟨fun listening opened => ?_, nofun, nofun, nofun⟩
        cases opened
        by_cases own : queue = other
        · exact own ▸ member
        · exact (good.settled other known (apart own) sourced).first none' running
      · exact absurd closed (ne_true_of_eq_false sourced)
    | false =>
      cases run
      refine ⟨nofun, nofun, nofun, fun listening opened => ?_, nofun, fun other _ _ _ => ?_, nofun, good.ended⟩
      · exact absurd (Link.open_isOpen opened) (ne_true_of_eq_false shut)
      · exact .of_closed_link shut rfl
  | joining =>
    simp only [Listener.resume, Bool.not_eq_true'] at run
    split_ifs at run with goes invalid busy closed fresh
    · cases run
      refine good.release held (covered ?_) fun _ => rfl
      simpa [Registration.stops] using invalid
    · exact absurd closed (ne_true_of_eq_false sourced)
    · cases run
      obtain ⟨opened, new⟩ := fresh
      have idle (targets : Finset String) : l.monitor ≠ .dialing targets := fun dials =>
        busy (good.dialing targets dials).1
      refine ⟨fun targets dials => absurd dials (idle targets), fun r held place => ?_, fun r held place => ?_,
        fun listening opened other member => ?_, fun r held' => ?_, fun other known own _ => ?_, fun none' => ?_, good.ended⟩
      · cases held
        cases place
      · cases held
        exact ⟨rfl, Finset.mem_insert_self _ _⟩
      · obtain rfl | older := Finset.mem_insert.mp member
        · exact .inr ⟨_, rfl, rfl, rfl⟩
        · obtain here | ⟨r', held', place, -⟩ := good.heard listening opened other older
          · exact .inl here
          · cases held.symm.trans held'
            cases place
      · cases held'
        exact good.known ⟨i, queue, .joining⟩ held
      · have covers := good.settled other known (apart (own ⟨i, queue, .listening⟩ rfl)) sourced
        exact ⟨covers.link, fun requested waits => (covers.waiting requested waits).imp_right Finset.mem_insert_of_mem,
          fun targets dials => absurd dials (idle targets),
          fun none' running => Finset.mem_insert_of_mem (covers.first none' running)⟩
      · exact good.quiet none'
    · cases run
      have idle (targets : Finset String) : l.monitor ≠ .dialing targets := fun dials =>
        busy (good.dialing targets dials).1
      -- an open session already listens on the channel
      have present (listening : Finset String) (opened : l.link = .open listening) : queue ∈ l.channels := by
        by_contra new
        exact fresh ⟨Link.open_isOpen opened, new⟩
      have heard (listening : Finset String) (opened : l.link = .open listening) (other : String)
          (member : other ∈ l.channels) : other ∈ listening := by
        obtain here | ⟨r', held', place, -⟩ := good.heard listening opened other member
        · exact here
        · cases held.symm.trans held'
          cases place
      refine ⟨fun targets dials => absurd dials (idle targets), nofun, nofun, fun listening opened other member => ?_,
        nofun, fun other known _ _ => ?_, good.quiet, good.ended⟩
      · obtain rfl | older := Finset.mem_insert.mp member
        · exact .inl (heard listening opened _ (present listening opened))
        · exact .inl (heard listening opened other older)
      · by_cases own : queue = other
        · subst own
          exact ⟨fun listening opened => heard listening opened _ (present listening opened),
            fun _ _ => .inr (Finset.mem_insert_self _ _), fun targets dials => absurd dials (idle targets),
            fun _ _ => Finset.mem_insert_self _ _⟩
        · have covers := good.settled other known (apart own) sourced
          exact ⟨covers.link, fun requested waits => (covers.waiting requested waits).imp_right Finset.mem_insert_of_mem,
            fun targets dials => absurd dials (idle targets),
            fun none' running => Finset.mem_insert_of_mem (covers.first none' running)⟩
  | listening =>
    cases succeeds with
    | false =>
      cases run
      exact good.release held (covered rfl) nofun
    | true =>
      simp only [Listener.resume, if_true] at run
      split at run
      · rename_i listening opened
        cases run
        have idle (targets : Finset String) : l.monitor ≠ .dialing targets := fun dials =>
          nomatch (good.dialing targets dials).2.2.2 _ held
        refine ⟨fun targets dials => absurd dials (idle targets), nofun, nofun, fun heard same other member => ?_, nofun,
          fun other known _ _ => ?_, fun none' running => ?_, fun closed => absurd closed (ne_true_of_eq_false sourced)⟩
        · cases same
          obtain here | ⟨r', held', -, rfl⟩ := good.heard listening opened other member
          · exact .inl (Finset.mem_insert_of_mem here)
          · cases held.symm.trans held'
            exact .inl (Finset.mem_insert_self _ _)
        · by_cases own : queue = other
          · subst own
            have member := (good.listening _ held rfl).2
            refine ⟨fun heard same => ?_, fun _ _ => .inr member, fun targets dials => absurd dials (idle targets),
              fun _ _ => member⟩
            cases same
            exact Finset.mem_insert_self _ _
          · have covers := good.settled other known (apart own) sourced
            refine ⟨fun heard same => ?_, covers.waiting, covers.dialing, covers.first⟩
            cases same
            exact Finset.mem_insert_of_mem (covers.link listening opened)
        · exact absurd (Link.open_isOpen opened) (ne_true_of_eq_false (good.quiet none' running))
      · cases run

theorem Listener.resume_settled {succeeds : Bool} (good : l.Good) (held : l.registration = some r)
    (run : l.resume r succeeds = some (.returned, l')) : l'.Settled r.queue := by
  obtain ⟨i, queue, place⟩ := r
  have known := (good.known _ held).1
  cases place with
  | connecting =>
    cases succeeds <;> cases run <;> exact ⟨known, nofun⟩
  | joining =>
    simp only [Listener.resume] at run
    split_ifs at run <;> cases run
    exact ⟨known, nofun⟩
  | listening =>
    cases succeeds with
    | false => cases run
    | true =>
      simp only [Listener.resume, if_true] at run
      split at run
      · cases run
        exact ⟨known, nofun⟩
      · cases run

/-- What the monitor and the session do by themselves. -/
theorem Listener.Good.event {event : LinkEvent} (good : l.Good) (run : l.event event = some l') : l'.Good := by
  cases event with
  | drop =>
    simp only [Listener.event] at run
    split_ifs at run
    cases run
    refine ⟨good.dialing, good.connecting, good.listening, nofun, good.known, fun other known apart sourced => ?_,
      fun _ _ => rfl, fun closed => ?_⟩
    · have covers := good.settled other known apart sourced
      exact ⟨nofun, covers.waiting, covers.dialing, covers.first⟩
    · rename_i opened
      rw [(good.ended closed).2] at opened
      cases opened
  | lost =>
    simp only [Listener.event] at run
    split_ifs at run with ready
    cases run
    refine ⟨nofun, fun r held place => ?_, good.listening, good.heard, good.known, fun other known apart sourced => ?_,
      nofun, good.ended⟩
    · exact nomatch ready.1.symm.trans (good.connecting r held place).1
    · exact .of_closed_link ready.2 rfl
  | wake =>
    simp only [Listener.event] at run
    split_ifs at run with ready
    cases run
    refine ⟨nofun, fun r held place => ?_, good.listening, good.heard, good.known, fun other known apart sourced => ?_,
      nofun, good.ended⟩
    · exact nomatch ready.1.symm.trans (good.connecting r held place).1
    · refine ⟨(good.settled other known apart sourced).link, fun requested waits => ?_, nofun, nofun⟩
      cases waits
      exact .inl known
  | dial =>
    simp only [Listener.event] at run
    split at run
    · rename_i requested waits
      split_ifs at run with busy refuses
      · cases run
        refine ⟨nofun, fun r held place => ?_, good.listening, good.heard, good.known, fun other known apart sourced => ?_,
          nofun, good.ended⟩
        · exact nomatch waits.symm.trans (good.connecting r held place).1
        · exact ⟨(good.settled other known apart sourced).link, nofun, nofun, nofun⟩
      · cases run
        simp only [Listener.refuses, Bool.or_eq_true, not_or, Bool.not_eq_true] at refuses
        obtain ⟨⟨-, sourced⟩, shut⟩ := refuses
        refine ⟨fun targets dials => ?_, fun r held place => ?_, fun r held place => ?_, fun listening opened => ?_,
          good.known, fun other known apart sourced => ?_, nofun, good.ended⟩
        · cases dials
          refine ⟨rfl, rfl, sourced, fun r held => ?_⟩
          cases place : r.place with
          | connecting => exact nomatch waits.symm.trans (good.connecting r held place).1
          | joining => rfl
          | listening => exact absurd (good.listening r held place).1 busy
        · exact nomatch waits.symm.trans (good.connecting r held place).1
        · exact absurd (good.listening r held place).1 busy
        · exact absurd (Link.open_isOpen opened) (ne_true_of_eq_false shut)
        · have covers := good.settled other known apart sourced
          refine ⟨covers.link, nofun, fun targets dials => ?_, nofun⟩
          cases dials
          exact Finset.mem_union.mpr (covers.waiting requested waits).symm
    · cases run
  | dialed succeeds =>
    simp only [Listener.event] at run
    split at run
    · rename_i targets dials
      obtain ⟨-, rfl, sourced, joining⟩ := good.dialing targets dials
      have unplaced (r : Registration ι) (held : l.registration = some r) : r.place ≠ .listening := by
        rw [joining r held]
        decide
      split_ifs at run <;> cases run
      · refine ⟨nofun, fun r held place => ?_, fun r held place => absurd place (unplaced r held),
          fun listening opened other member => ?_, good.known, fun other known apart sourced => ?_, nofun, fun closed => ?_⟩
        · exact nomatch dials.symm.trans (good.connecting r held place).1
        · cases opened
          exact .inl member
        · refine ⟨fun listening opened => ?_, nofun, nofun, nofun⟩
          cases opened
          exact (good.settled other known apart sourced).dialing _ dials
        · exact absurd closed (ne_true_of_eq_false sourced)
      · refine ⟨nofun, fun r held place => ?_, fun r held place => absurd place (unplaced r held), good.heard, good.known,
          fun other known apart sourced => ?_, nofun, good.ended⟩
        · exact nomatch dials.symm.trans (good.connecting r held place).1
        · exact ⟨(good.settled other known apart sourced).link, nofun, nofun, nofun⟩
    · cases run
  | close =>
    simp only [Listener.event] at run
    split_ifs at run with ready
    cases run
    have free : l.registration = none := Option.isNone_iff_eq_none.mp ready.1
    refine ⟨good.dialing, good.connecting, good.listening, good.heard, fun r held => ?_,
      fun other known apart sourced => ?_, nofun, fun closed => ⟨rfl, (good.ended closed).2⟩⟩
    · exact nomatch free.symm.trans held
    · have covers := good.settled other known apart sourced
      exact ⟨covers.link, covers.waiting, covers.dialing, nofun⟩
  | closeSource =>
    simp only [Listener.event] at run
    split_ifs at run with ready
    cases run
    have idle (targets : Finset String) : l.monitor ≠ .dialing targets := fun dials =>
      Bool.false_ne_true (ready.2.1.symm.trans (good.dialing targets dials).1)
    exact ⟨fun targets dials => absurd dials (idle targets), good.connecting, good.listening, nofun, good.known,
      fun _ _ _ => nofun, fun _ _ => rfl, fun _ => ⟨ready.1, rfl⟩⟩
  | cancelMonitor =>
    simp only [Listener.event] at run
    split_ifs at run with ready
    cases run
    have closed := (good.ended ready.1).1
    have free (r : Registration ι) : l.registration ≠ some r := fun held =>
      Bool.false_ne_true ((good.known r held).2.symm.trans closed)
    exact ⟨nofun, fun r held => absurd held (free r), fun r held => absurd held (free r), good.heard, good.known,
      fun _ _ _ sourced => absurd ready.1 (ne_true_of_eq_false sourced),
      fun _ running => absurd closed (ne_true_of_eq_false running), good.ended⟩

theorem Listener.Settled.ensureQueue {name : String} (settled : l.Settled queue) :
    (l.ensureQueue i name).2.Settled queue := by
  unfold Listener.ensureQueue
  dsimp only
  split_ifs with closed known none' refuses
  · exact settled
  · exact settled
  · exact ⟨Finset.mem_insert_of_mem settled.1, settled.2⟩
  all_goals
    refine ⟨Finset.mem_insert_of_mem settled.1, fun r held => ?_⟩
    cases held
    exact fun same => known (by rw [show name = queue from same]; exact settled.1)

theorem Listener.ensureQueue_registered {name : String}
    (free : l.registration = none) (held : (l.ensureQueue i name).2.registration = some r) :
    r.handler = i ∧ r.queue = name := by
  unfold Listener.ensureQueue at held
  dsimp only at held
  split_ifs at held with closed known none' refuses
  · exact nomatch free.symm.trans held
  · exact nomatch free.symm.trans held
  · exact nomatch free.symm.trans held
  all_goals
    cases held
    exact ⟨rfl, rfl⟩

/-- What is registered after a step of a registration was registered before. -/
theorem Listener.resume_registered {r' : Registration ι} {succeeds : Bool}
    (run : l.resume r succeeds = some (reply, l')) (held : l'.registration = some r') :
    r'.handler = r.handler ∧ r'.queue = r.queue := by
  obtain ⟨i, queue, place⟩ := r
  cases place with
  | connecting => cases succeeds <;> cases run <;> cases held
  | joining =>
    simp only [Listener.resume] at run
    split_ifs at run <;> cases run <;> cases held
    exact ⟨rfl, rfl⟩
  | listening =>
    cases succeeds with
    | false =>
      cases run
      cases held
    | true =>
      simp only [Listener.resume, if_true] at run
      split at run <;> cases run
      cases held

theorem Listener.resume_queues {succeeds : Bool}
    (run : l.resume r succeeds = some (reply, l')) : l'.queues = l.queues := by
  obtain ⟨i, queue, place⟩ := r
  cases place with
  | connecting => cases succeeds <;> cases run <;> rfl
  | joining =>
    simp only [Listener.resume] at run
    split_ifs at run <;> cases run <;> rfl
  | listening =>
    cases succeeds with
    | false =>
      cases run
      rfl
    | true =>
      simp only [Listener.resume, if_true] at run
      split at run <;> cases run
      rfl

theorem Listener.event_frame {event : LinkEvent} (run : l.event event = some l') :
    l'.queues = l.queues ∧ l'.registration = l.registration := by
  cases event with
  | dial | dialed =>
    simp only [Listener.event] at run
    split at run
    · split_ifs at run <;> cases run <;> exact ⟨rfl, rfl⟩
    · cases run
  | _ =>
    simp only [Listener.event] at run
    split_ifs at run
    cases run
    exact ⟨rfl, rfl⟩

end Registration

section Wakeups

variable {hub : Hub} {h : Handler}

/-- What a handler that waits for a hint may count on. -/
def Hub.Serves (hub : Hub) (h : Handler) : Prop :=
  match h.stage with
  | .claiming observed => observed ≤ hub.queueGeneration h.queue ∧
      (h.owed = true → hub.closed = true ∨ observed < hub.queueGeneration h.queue)
  | .subscribed event => (some h.queue, event) ∈ hub.subscribers ∧ event < hub.nextEvent ∧
      (h.owed = true → event ∈ hub.wakeups)
  | _ => True

theorem Hub.Serves.of_idle (idle : h.stage.waits = false) : hub.Serves h := by
  unfold Hub.Serves
  split
  · rename_i stage
    rw [stage] at idle
    cases idle
  · rename_i stage
    rw [stage] at idle
    cases idle
  · trivial

/-- Subscriptions of others, and events that are set, take nothing away. -/
theorem Hub.Serves.mono {hub' : Hub} (serves : hub.Serves h) (generations : hub'.queueGenerations = hub.queueGenerations)
    (closed : hub'.closed = hub.closed) (subscribers : ∀ event, h.stage = .subscribed event →
      (some h.queue, event) ∈ hub.subscribers → (some h.queue, event) ∈ hub'.subscribers)
    (wakeups : hub.wakeups ⊆ hub'.wakeups) (next : hub.nextEvent ≤ hub'.nextEvent) : hub'.Serves h := by
  unfold Hub.Serves Hub.queueGeneration at serves ⊢
  rw [generations, closed]
  split at serves
  · exact serves
  · rename_i event stage
    exact ⟨subscribers event stage serves.1, serves.2.1.trans_le next, fun owed => wakeups (serves.2.2 owed)⟩
  · trivial

/-- A later subscription finds its event set. -/
theorem Hub.Serves.subscribe {observed event : ℕ} {hub' : Hub} (serves : hub.Serves h) (stage : h.stage = .claiming observed)
    (run : hub.subscribe observed (some h.queue) = some (event, hub')) :
    hub'.Serves { h with stage := .subscribed event } ∧ event = hub.nextEvent := by
  unfold Hub.Serves at serves
  rw [stage] at serves
  unfold Hub.subscribe at run
  dsimp only at run
  split_ifs at run with closed moved
  all_goals
    cases run
    refine ⟨⟨Finset.mem_insert_self _ _, Nat.lt_succ_self _, fun owed => ?_⟩, rfl⟩
  · exact Finset.mem_insert_self _ _
  · obtain shut | later := serves.2 owed
    · exact absurd shut closed
    · exact absurd later.ne moved

/-- A hint counts for a handler that waits for it, if its queue has a generation to count. -/
theorem Hub.Serves.notify {queue : Option String} (serves : hub.Serves h) (running : hub.closed = false)
    (counted : queue = none → ∀ observed, h.stage = .claiming observed → hub.queueGenerations h.queue ≠ none) :
    (hub.notify queue).Serves { h with owed := h.owed || (h.stage.waits && queue.all (· = h.queue)) } := by
  unfold Hub.Serves at serves ⊢
  split at serves
  · rename_i observed stage
    simp only [stage, Stage.waits, Bool.true_and]
    cases queue with
    | none =>
      obtain ⟨generation, counts⟩ := Option.ne_none_iff_exists'.mp (counted rfl observed stage)
      simp only [Hub.queueGeneration, counts, Option.getD_some] at serves
      simp only [Hub.notify, running, Bool.false_eq_true, if_false, Hub.queueGeneration, counts, Option.map_some,
        Option.getD_some]
      exact ⟨serves.1.trans (Nat.le_succ _), fun _ => .inr (Nat.lt_succ_of_le serves.1)⟩
    | some queue =>
      simp only [Hub.notify, running, Bool.false_eq_true, if_false, Option.all_some]
      by_cases own : queue = h.queue
      · subst own
        simp only [Hub.queueGeneration, Function.update_self, Option.getD_some] at serves ⊢
        exact ⟨serves.1.trans (Nat.le_succ _), fun _ => .inr (Nat.lt_succ_of_le serves.1)⟩
      · simp only [Hub.queueGeneration, Function.update_of_ne (Ne.symm own), own, decide_false, Bool.or_false,
          running] at serves ⊢
        exact ⟨serves.1, fun owed => .inr ((serves.2 owed).resolve_left Bool.false_ne_true)⟩
  · rename_i event stage
    simp only [stage, Stage.waits, Bool.true_and]
    cases queue with
    | none =>
      simp only [Hub.notify, running, Bool.false_eq_true, if_false]
      exact ⟨serves.1, serves.2.1, fun _ => Finset.mem_union_right _ (Finset.mem_image_of_mem Prod.snd serves.1)⟩
    | some queue =>
      simp only [Hub.notify, running, Bool.false_eq_true, if_false, Option.all_some]
      refine ⟨serves.1, serves.2.1, fun owed => ?_⟩
      by_cases own : queue = h.queue
      · subst own
        refine Finset.mem_union_right _ (Finset.mem_image.mpr ⟨_, Finset.mem_filter.mpr ⟨serves.1, .inl rfl⟩, rfl⟩)
      · simp only [own, decide_false, Bool.or_false] at owed
        exact Finset.mem_union_left _ (serves.2.2 owed)
  · trivial

theorem Hub.Serves.shutdown (serves : hub.Serves h) (running : hub.closed = false) :
    hub.shutdown.Serves { h with owed := h.owed || h.stage.waits } := by
  unfold Hub.Serves at serves ⊢
  simp only [Hub.shutdown, running, Bool.false_eq_true, if_false]
  split at serves
  · rename_i observed stage
    simp only [stage]
    refine ⟨?_, fun _ => .inl trivial⟩
    unfold Hub.queueGeneration at serves ⊢
    cases counts : hub.queueGenerations h.queue with
    | none => simpa [counts] using serves.1
    | some generation =>
      simp only [counts, Option.getD_some, Option.map_some] at serves ⊢
      exact serves.1.trans (Nat.le_succ _)
  · rename_i event stage
    simp only [stage]
    exact ⟨serves.1, serves.2.1, fun _ => Finset.mem_union_right _ (Finset.mem_image_of_mem Prod.snd serves.1)⟩
  · trivial

end Wakeups

section System

variable {s s' : Polls ι}

/-- The steps that may lose a hint: a global one while a handler has read the generation of a queue that was never
notified, and a registration that stops half-way under a session, or a coming one, that does not listen for its queue. -/
def Polls.Exposed (s : Polls ι) : Action ι → Prop
  | .notify none | .link (.dialed true) => s.hub.closed = false ∧ ∃ i observed,
      (s.handler i).stage = .claiming observed ∧ s.hub.queueGenerations (s.handler i).queue = none
  | .resume i succeeds => ∃ r, s.listener.registration = some r ∧ r.handler = i ∧ r.stops succeeds = true ∧
      s.listener.sourceClosed = false ∧ ¬s.listener.Covers r.queue
  | .leave i => ∃ r, s.listener.registration = some r ∧ r.handler = i ∧ r.place ≠ .connecting ∧
      s.listener.sourceClosed = false ∧ ¬s.listener.Covers r.queue
  | _ => False

/-- Steps that are never exposed: the global ones and the end of a handler aside, and the first session. -/
def Polls.plain (s : Polls ι) : Action ι → Bool
  | .notify none | .link (.dialed true) | .leave _ => false
  | .resume _ _ => s.listener.registration.all fun r => r.place = .connecting
  | _ => true

theorem Polls.plain_calm (s : Polls ι) (action : Action ι) (plain : s.plain action = true) : ¬s.Exposed action := by
  intro exposed
  unfold Polls.Exposed at exposed
  split at exposed
  · cases plain
  · cases plain
  · rename_i i succeeds
    obtain ⟨r, held, -, stops, -⟩ := exposed
    simp only [Polls.plain, held, Option.all_some, decide_eq_true_eq] at plain
    rw [Registration.stops, plain] at stops
    cases stops
  · cases plain
  · exact exposed

/-- What holds between any two steps. -/
structure Polls.Sound (s : Polls ι) : Prop where
  listener : s.listener.Good
  ready : ∀ queue ∈ s.ready, s.listener.Settled queue
  registered : ∀ r, s.listener.registration = some r → (s.handler r.handler).queue = r.queue
  serves : ∀ i, s.hub.Serves (s.handler i)
  distinct : ∀ i j event, (s.handler i).stage = .subscribed event → (s.handler j).stage = .subscribed event → i = j

/-- What the hub and the listener are for: a healthy listener hears every queue that `prepare_queue` returned for, and
a handler has its event set once a hint for its queue came after it read the generation. -/
structure Polls.NoLostHint (s : Polls ι) : Prop where
  listens : ∀ queue ∈ s.ready, s.listener.healthy = true → ∀ listening, s.listener.link = .open listening →
    queue ∈ listening
  woken : ∀ i event, (s.handler i).stage = .subscribed event → (s.handler i).owed = true → event ∈ s.hub.wakeups

theorem Polls.Sound.noLostHint (sound : s.Sound) : s.NoLostHint where
  listens := fun queue member _ listening opened => by
    obtain ⟨known, apart⟩ := sound.ready queue member
    have sourced : s.listener.sourceClosed = false := eq_false_of_ne_true fun closed =>
      nomatch opened.symm.trans (sound.listener.ended closed).2
    exact (sound.listener.settled queue known apart sourced).link listening opened
  woken := fun i event stage owed => by
    have serves := sound.serves i
    unfold Hub.Serves at serves
    rw [stage] at serves
    exact serves.2.2 owed

theorem Polls.Sound.start (queue : ι → String) : (Polls.start queue).Sound :=
  ⟨Listener.good_idle, fun _ member => (nomatch member), nofun, fun _ => trivial, nofun⟩

/-- The listener moves on. -/
theorem Polls.Sound.listen {l : Listener ι} (sound : s.Sound) (good : l.Good)
    (settled : ∀ queue, s.listener.Settled queue → l.Settled queue)
    (registered : ∀ r, l.registration = some r → (s.handler r.handler).queue = r.queue) :
    ({ s with listener := l } : Polls ι).Sound :=
  ⟨good, fun queue member => settled queue (sound.ready queue member), registered, sound.serves, sound.distinct⟩

theorem Polls.Sound.publish {queue : Option String} (sound : s.Sound)
    (counted : queue = none → s.hub.closed = false → ∀ i observed, (s.handler i).stage = .claiming observed →
      s.hub.queueGenerations (s.handler i).queue ≠ none) : (s.publish queue).Sound := by
  unfold Polls.publish
  split_ifs with closed
  · exact sound
  · have running := eq_false_of_ne_true closed
    exact ⟨sound.listener, sound.ready, sound.registered,
      fun i => (sound.serves i).notify running fun global => counted global running i, sound.distinct⟩

variable [DecidableEq ι]

@[simp] theorem Polls.put_queue (s : Polls ι) (i j : ι) (stage : Stage) (owed : Bool) :
    ((s.put i stage owed).handler j).queue = (s.handler j).queue := by
  unfold Polls.put
  by_cases own : j = i
  · subst own
    simp
  · simp [Function.update_of_ne own]

theorem Polls.put_self (s : Polls ι) (i : ι) (stage : Stage) (owed : Bool) :
    (s.put i stage owed).handler i = { s.handler i with stage := stage, owed := owed } := by
  simp [Polls.put]

theorem Polls.put_of_ne (s : Polls ι) {i j : ι} (stage : Stage) (owed : Bool) (other : j ≠ i) :
    (s.put i stage owed).handler j = s.handler j := by
  simp [Polls.put, Function.update_of_ne other]

/-- A handler moves to a place where it waits for no hint. -/
theorem Polls.Sound.put (sound : s.Sound) (i : ι) {stage : Stage} (owed : Bool) (idle : stage.waits = false) :
    (s.put i stage owed).Sound where
  listener := sound.listener
  ready := sound.ready
  registered := fun r held => (s.put_queue i r.handler stage owed).trans (sound.registered r held)
  serves := fun j => by
    change s.hub.Serves _
    by_cases own : j = i
    · subst own
      rw [s.put_self]
      exact .of_idle idle
    · rw [s.put_of_ne stage owed own]
      exact sound.serves j
  distinct := fun j k event first second => by
    have apart (j : ι) (here : ((s.put i stage owed).handler j).stage = .subscribed event) : j ≠ i := by
      rintro rfl
      rw [s.put_self] at here
      dsimp only at here
      rw [here] at idle
      cases idle
    rw [s.put_of_ne stage owed (apart j first)] at first
    rw [s.put_of_ne stage owed (apart k second)] at second
    exact sound.distinct j k event first second

/-- A subscription is given back. -/
theorem Polls.Sound.remove {i : ι} {event : ℕ} {stage : Stage} (sound : s.Sound) (idle : stage.waits = false)
    (here : (s.handler i).stage = .subscribed event) :
    (({ s with hub := s.hub.remove event (some (s.handler i).queue) } : Polls ι).put i stage false).Sound := by
  refine ⟨sound.listener, sound.ready, fun r held => (Polls.put_queue _ i r.handler stage false).trans
    (sound.registered r held), fun j => ?_, fun j k other first second => ?_⟩
  · by_cases own : j = i
    · subst own
      rw [Polls.put_self]
      exact .of_idle idle
    · rw [Polls.put_of_ne _ _ _ own]
      refine (sound.serves j).mono rfl rfl (fun other there member => ?_) (Finset.Subset.refl _) le_rfl
      refine Finset.mem_erase.mpr ⟨fun same => own ?_, member⟩
      cases (Prod.mk.inj same).2
      exact sound.distinct j i _ there here
  · have apart (j : ι) (there : ((({ s with hub := s.hub.remove event (some (s.handler i).queue) } : Polls ι).put i
        stage false).handler j).stage = .subscribed other) : j ≠ i := by
      rintro rfl
      rw [Polls.put_self] at there
      dsimp only at there
      rw [there] at idle
      cases idle
    have first' := first
    have second' := second
    rw [Polls.put_of_ne _ _ _ (apart j first)] at first'
    rw [Polls.put_of_ne _ _ _ (apart k second)] at second'
    exact sound.distinct j k other first' second'

theorem Polls.Sound.subscribe {i : ι} {observed event : ℕ} {hub : Hub} (sound : s.Sound)
    (stage : (s.handler i).stage = .claiming observed)
    (run : s.hub.subscribe observed (some (s.handler i).queue) = some (event, hub)) :
    (({ s with hub := hub } : Polls ι).put i (.subscribed event) (s.handler i).owed).Sound := by
  obtain ⟨own, rfl⟩ := (sound.serves i).subscribe stage run
  obtain ⟨generations, closed, subscribers, wakeups, next⟩ : hub.queueGenerations = s.hub.queueGenerations ∧
      hub.closed = s.hub.closed ∧ s.hub.subscribers ⊆ hub.subscribers ∧ s.hub.wakeups ⊆ hub.wakeups ∧
      s.hub.nextEvent ≤ hub.nextEvent := by
    unfold Hub.subscribe at run
    dsimp only at run
    split_ifs at run with closed moved
    all_goals
      cases run
      refine ⟨rfl, rfl, Finset.subset_insert _ _, ?_, Nat.le_succ _⟩
    · exact Finset.subset_insert _ _
    · exact Finset.Subset.refl _
  have fresh (j : ι) : (s.handler j).stage ≠ .subscribed s.hub.nextEvent := fun there => by
    have serves := sound.serves j
    unfold Hub.Serves at serves
    rw [there] at serves
    exact lt_irrefl _ serves.2.1
  refine ⟨sound.listener, sound.ready, fun r held => (Polls.put_queue _ i r.handler _ _).trans
    (sound.registered r held), fun j => ?_, fun j k other first second => ?_⟩
  · by_cases same : j = i
    · subst same
      rw [Polls.put_self]
      exact own
    · rw [Polls.put_of_ne _ _ _ same]
      exact (sound.serves j).mono generations closed (fun _ _ member => subscribers member) wakeups next
  · by_cases mine : j = i <;> by_cases yours : k = i
    · rw [mine, yours]
    · subst mine
      rw [Polls.put_self] at first
      rw [Polls.put_of_ne _ _ _ yours] at second
      cases first
      exact absurd second (fresh k)
    · subst yours
      rw [Polls.put_self] at second
      rw [Polls.put_of_ne _ _ _ mine] at first
      cases second
      exact absurd first (fresh j)
    · rw [Polls.put_of_ne _ _ _ mine] at first
      rw [Polls.put_of_ne _ _ _ yours] at second
      exact sound.distinct j k other first second

/-- The caller of `ensure_queue` after a step of it. -/
theorem Polls.Sound.answer {i : ι} {reply : Reply} {l : Listener ι} (sound : s.Sound) (good : l.Good)
    (settled : ∀ queue, s.listener.Settled queue → l.Settled queue)
    (registered : ∀ r, l.registration = some r → (s.handler r.handler).queue = r.queue)
    (ready : reply = .returned → l.Settled (s.handler i).queue) : (s.answer i (reply, l)).Sound := by
  have listens := sound.listen good settled registered
  cases reply with
  | returned =>
    have returned : ({ s with listener := l, ready := insert (s.handler i).queue s.ready } : Polls ι).Sound := by
      refine ⟨good, fun queue member => ?_, listens.registered, listens.serves, listens.distinct⟩
      obtain rfl | older := Finset.mem_insert.mp member
      · exact ready rfl
      · exact listens.ready queue older
    exact returned.put i false (show Stage.prepared.waits = false from rfl)
  | raised => exact listens.put i false rfl
  | suspended => exact listens

theorem Polls.Sound.step {action : Action ι} (sound : s.Sound) (calm : ¬s.Exposed action)
    (step : s.step action = some s') : s'.Sound := by
  cases action with
  | begin i =>
    simp only [Polls.step] at step
    split at step <;> cases step
    exact sound.put i false (by split_ifs <;> rfl)
  | enter i =>
    simp only [Polls.step] at step
    split_ifs at step with ready
    cases step
    have free := Option.isNone_iff_eq_none.mp ready.2
    refine sound.answer (sound.listener.ensureQueue free) (fun queue settled => settled.ensureQueue) (fun r held => ?_)
      (Listener.ensureQueue_settled free)
    obtain ⟨rfl, same⟩ := Listener.ensureQueue_registered free held
    exact same.symm
  | resume i succeeds =>
    simp only [Polls.step] at step
    split at step
    · rename_i r held
      split_ifs at step with own
      obtain ⟨⟨reply, l⟩, run, rfl⟩ := Option.map_eq_some_iff.mp step
      have queue : (s.handler i).queue = r.queue := own ▸ sound.registered r held
      have covered (stops : r.stops succeeds = true) (sourced : s.listener.sourceClosed = false) :
          s.listener.Covers r.queue := by
        by_contra uncovered
        exact calm ⟨r, held, own, stops, sourced, uncovered⟩
      refine sound.answer (sound.listener.resume held covered run) (fun queue settled => ⟨?_, fun r' held' => ?_⟩)
        (fun r' held' => ?_) fun returned => ?_
      · rw [Listener.resume_queues run]
        exact settled.1
      · rw [(Listener.resume_registered run held').2]
        exact settled.2 r held
      · obtain ⟨same, named⟩ := Listener.resume_registered run held'
        rw [same, named, own]
        exact queue
      · subst returned
        rw [queue]
        exact Listener.resume_settled sound.listener held run
    · cases step
  | read i =>
    simp only [Polls.step] at step
    split at step
    · cases step
      refine ⟨sound.listener, sound.ready, fun r held => (s.put_queue i r.handler _ _).trans (sound.registered r held),
        fun j => ?_, fun j k event first second => ?_⟩
      · by_cases own : j = i
        · subst own
          rw [Polls.put_self]
          exact ⟨le_rfl, nofun⟩
        · rw [Polls.put_of_ne _ _ _ own]
          exact sound.serves j
      · have apart (j : ι) (there : ((s.put i (.claiming (s.hub.queueGeneration (s.handler i).queue)) false).handler
            j).stage = .subscribed event) : j ≠ i := by
          rintro rfl
          rw [Polls.put_self] at there
          cases there
        rw [Polls.put_of_ne _ _ _ (apart j first)] at first
        rw [Polls.put_of_ne _ _ _ (apart k second)] at second
        exact sound.distinct j k event first second
    · cases step
  | subscribe i =>
    simp only [Polls.step] at step
    split at step
    · rename_i observed stage
      split at step <;> cases step
      · exact sound.put i false rfl
      · rename_i event hub run
        exact sound.subscribe stage run
    · cases step
  | renew i =>
    simp only [Polls.step] at step
    split at step
    · rename_i event stage
      cases step
      exact sound.remove rfl stage
    · cases step
  | leave i =>
    simp only [Polls.step] at step
    split at step
    · rename_i event stage
      cases step
      exact sound.remove rfl stage
    · split at step
      · rename_i r held
        split_ifs at step with own
        · cases step
          have good : (s.listener.abandon r).Good := sound.listener.abandon held fun place sourced => by
            by_contra uncovered
            exact calm ⟨r, held, own, place, sourced, uncovered⟩
          exact (sound.listen good (fun queue settled => ⟨settled.1, nofun⟩) nofun).put i false rfl
        · cases step
          exact sound.put i false rfl
      · cases step
        exact sound.put i false rfl
    · cases step
    · cases step
      exact sound.put i false rfl
  | deliver queue =>
    simp only [Polls.step] at step
    split at step
    · split_ifs at step
      cases step
      exact sound.listen ⟨sound.listener.dialing, sound.listener.connecting, sound.listener.listening,
        sound.listener.heard, sound.listener.known, fun other known apart sourced =>
          have covers := sound.listener.settled other known apart sourced
          ⟨covers.link, covers.waiting, covers.dialing, covers.first⟩,
        sound.listener.quiet, sound.listener.ended⟩ (fun _ settled => settled) sound.registered
    · cases step
  | drain queue =>
    simp only [Polls.step] at step
    split_ifs at step
    cases step
    refine Polls.Sound.publish ?_ nofun
    exact sound.listen ⟨sound.listener.dialing, sound.listener.connecting, sound.listener.listening,
      sound.listener.heard, sound.listener.known, fun other known apart sourced =>
        have covers := sound.listener.settled other known apart sourced
        ⟨covers.link, covers.waiting, covers.dialing, covers.first⟩,
      sound.listener.quiet, sound.listener.ended⟩ (fun _ settled => settled) sound.registered
  | notify queue =>
    cases step
    refine sound.publish fun global running i observed stage uncounted => ?_
    subst global
    exact calm ⟨running, i, observed, stage, uncounted⟩
  | shutdown =>
    simp only [Polls.step] at step
    split_ifs at step with closed <;> cases step
    · exact sound
    · exact ⟨sound.listener, sound.ready, sound.registered,
        fun i => (sound.serves i).shutdown (eq_false_of_ne_true closed), sound.distinct⟩
  | link event =>
    obtain ⟨l, run, rfl⟩ := Option.map_eq_some_iff.mp step
    obtain ⟨queues, registration⟩ := Listener.event_frame run
    have listens : ({ s with listener := l } : Polls ι).Sound := by
      refine sound.listen (sound.listener.event run) (fun queue settled => ⟨queues ▸ settled.1, ?_⟩) ?_
      · rw [registration]
        exact settled.2
      · rw [registration]
        exact sound.registered
    split_ifs with announced
    · subst announced
      refine listens.publish fun _ running i observed stage uncounted => ?_
      exact calm ⟨running, i, observed, stage, uncounted⟩
    · exact listens

theorem Polls.Run.sound (run : Polls.Run (fun s action => ¬s.Exposed action) s) : s.Sound := by
  induction run with
  | start queue => exact .start queue
  | step before calm step ih => exact ih.step calm step

/-- No hint is lost in a run that takes none of the exposed steps. -/
theorem no_hint_lost (run : Polls.Run (fun s action => ¬s.Exposed action) s) : s.NoLostHint :=
  run.sound.noLostHint

section Plays

/-- Play actions one after the other. -/
def Polls.plays (permitted : Polls ι → Action ι → Bool) : List (Action ι) → Polls ι → Option (Polls ι)
  | [], s => some s
  | action :: actions, s =>
    if permitted s action then (s.step action).bind (Polls.plays permitted actions) else none

theorem Polls.Run.plays {permitted : Polls ι → Action ι → Prop} {check : Polls ι → Action ι → Bool}
    {actions : List (Action ι)} (run : Polls.Run permitted s) (sure : ∀ t action, check t action = true → permitted t action)
    (played : Polls.plays check actions s = some s') : Polls.Run permitted s' := by
  induction actions generalizing s with
  | nil =>
    cases played
    exact run
  | cons action actions ih =>
    simp only [Polls.plays] at played
    split_ifs at played with allowed
    obtain ⟨mid, step, rest⟩ := Option.bind_eq_some_iff.mp played
    exact ih (run.step (sure s action allowed) step) rest

/-- A handler of "q" prepares its queue and reads its generation; a hint comes before it subscribes. -/
def hinted : List (Action Unit) :=
  [.begin (), .enter (), .resume () true, .read (), .notify (some "q"), .subscribe ()]

theorem no_hint_lost_between : ∃ s : Polls Unit, s.NoLostHint ∧ s.ready = {"q"} ∧ s.listener.link = .open {"q"} ∧
    (s.handler ()).stage = .subscribed 0 ∧ (s.handler ()).owed = true := by
  have played : (Polls.plays Polls.plain hinted (.start fun _ => "q")).any (fun s => decide (s.ready = {"q"} ∧
      s.listener.link = .open {"q"} ∧ (s.handler ()).stage = .subscribed 0 ∧ (s.handler ()).owed = true)) = true := by
    decide +kernel
  obtain ⟨s, played, there⟩ := (Option.any_eq_true _ _).mp played
  have run : Polls.Run (fun s action => ¬s.Exposed action) s :=
    (Polls.Run.start fun _ => "q").plays Polls.plain_calm played
  exact ⟨s, no_hint_lost run, of_decide_eq_true there⟩

/-- A global notification does not count for a queue that was never notified: the handler that read its generation
before subscribes after it, and waits. -/
theorem global_hint_lost : ¬∀ s : Polls Unit, Polls.Run (fun _ _ => True) s → s.NoLostHint := by
  intro kept
  have played : (Polls.plays (fun _ _ => true)
      [.begin (), .enter (), .resume () true, .read (), .notify none, .subscribe ()]
      (.start fun _ : Unit => "q")).any (fun s => decide ((s.handler ()).stage = .subscribed 0 ∧
        (s.handler ()).owed = true ∧ 0 ∉ s.hub.wakeups)) = true := by decide +kernel
  obtain ⟨s, played, there⟩ := (Option.any_eq_true _ _).mp played
  obtain ⟨stage, owed, asleep⟩ := of_decide_eq_true there
  have run : Polls.Run (fun _ _ => True) s := (Polls.Run.start fun _ => "q").plays (fun _ _ _ => trivial) played
  exact asleep ((kept s run).woken () 0 stage owed)

/-- A handler cancelled in `add_channels` leaves its queue behind as known: the next one is told that it is prepared,
and the session does not listen for it. -/
example : (Polls.plays (fun _ _ => true) [.begin 0, .enter 0, .resume 0 true, .begin 1, .enter 1, .resume 1 true, .leave 1,
    .begin 2, .enter 2] (.start fun i : ℕ => if i = 0 then "q" else "r")).any (fun s => "r" ∈ s.ready ∧
      s.listener.healthy = true ∧ s.listener.link = .open {"q"}) = true := by decide +kernel

end Plays

end System

end Taskq.Http
