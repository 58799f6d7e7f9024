import Mathlib.Data.Finset.Image
import Mathlib.Data.Finset.Union
import Taskq.Model.Values

/-! The long-poll hub and the listener behind it, in one event loop. A step is what runs between two suspensions; the
bodies under the hub's lock do not suspend, so each of them is one step. A channel is named by its queue. -/
namespace Taskq.Http

section Hub

/-- `ClaimWaitHub`: a bucket of events for each queue, and one for those that name no queue. -/
structure Hub where
  generation : ℕ
  queueGenerations : String → Option ℕ
  closed : Bool
  subscribers : Finset (Option String × ℕ)
  /-- The events that are set. -/
  wakeups : Finset ℕ
  nextEvent : ℕ

def Hub.empty : Hub where
  generation := 0
  queueGenerations := fun _ => none
  closed := false
  subscribers := ∅
  wakeups := ∅
  nextEvent := 0

def Hub.queueGeneration (hub : Hub) (queue : String) : ℕ := (hub.queueGenerations queue).getD 0

/-- `subscribe`: the event, which is set when the generation has moved on. -/
def Hub.subscribe (observed : ℕ) (queue : Option String) (hub : Hub) : Option (ℕ × Hub) :=
  if hub.closed then none
  else
    let event := hub.nextEvent
    let current := match queue with
      | none => hub.generation
      | some queue => hub.queueGeneration queue
    some (event, { hub with
      nextEvent := event + 1
      subscribers := insert (queue, event) hub.subscribers
      wakeups := if observed ≠ current then insert event hub.wakeups else hub.wakeups })

/-- `notify`: for one queue and those that name none, or for all. -/
def Hub.notify (queue : Option String) (hub : Hub) : Hub :=
  if hub.closed then hub
  else match queue with
    | none => { hub with
        generation := hub.generation + 1
        queueGenerations := fun name => (hub.queueGenerations name).map (· + 1)
        wakeups := hub.wakeups ∪ hub.subscribers.image (·.2) }
    | some queue => { hub with
        generation := hub.generation + 1
        queueGenerations := Function.update hub.queueGenerations queue (some (hub.queueGeneration queue + 1))
        wakeups := hub.wakeups ∪
          (hub.subscribers.filter fun entry => entry.1 = some queue ∨ entry.1 = none).image (·.2) }

def Hub.shutdown (hub : Hub) : Hub :=
  if hub.closed then hub
  else { hub with
    closed := true
    generation := hub.generation + 1
    queueGenerations := fun name => (hub.queueGenerations name).map (· + 1)
    wakeups := hub.wakeups ∪ hub.subscribers.image (·.2) }

/-- `_remove`. -/
def Hub.remove (event : ℕ) (queue : Option String) (hub : Hub) : Hub :=
  { hub with subscribers := hub.subscribers.erase (queue, event) }

end Hub

section Listener

/-- The LISTEN session of the notification source. -/
inductive Link where
  | none
  /-- Open, with the channels it listens on. -/
  | open (listening : Finset String)
  | dead
  deriving DecidableEq

/-- The task that keeps the session alive. -/
inductive Monitor where
  | none
  | watching
  /-- In `connect` with these queues, waiting for the lock of the source. -/
  | waiting (requested : Finset String)
  /-- In `connect` under the lock, which listens on these before it returns. -/
  | dialing (targets : Finset String)
  /-- Between two attempts. -/
  | sleeping
  deriving DecidableEq

/-- Where `ensure_queue` is while it holds its lock. -/
inductive Place where
  | connecting
  /-- In `add_channels`, before it has the lock of the source. -/
  | joining
  | listening
  deriving DecidableEq

/-- The handler inside `ensure_queue`, and the queue it brings. -/
structure Registration (ι : Type) where
  handler : ι
  queue : String
  place : Place

/-- `_RuntimeNotificationListener` with its `PostgresNotificationSource`. -/
structure Listener (ι : Type) where
  healthy : Bool
  queues : Finset String
  /-- The holder of the listener's lock. -/
  registration : Option (Registration ι)
  monitor : Monitor
  closed : Bool
  pending : Finset String
  channels : Finset String
  link : Link
  /-- The lock of the source is held. -/
  busy : Bool
  sourceClosed : Bool

variable {ι : Type}

def Listener.idle : Listener ι where
  healthy := true
  queues := ∅
  registration := none
  monitor := .none
  closed := false
  pending := ∅
  channels := ∅
  link := .none
  busy := false
  sourceClosed := false

def Link.isOpen : Link → Bool
  | .open _ => true
  | _ => false

/-- How a step of `ensure_queue` leaves its caller. -/
inductive Reply where
  | returned | raised | suspended
  deriving DecidableEq, Repr

/-- `connect` raises before it suspends. -/
def Listener.refuses (l : Listener ι) (requested : Finset String) : Bool :=
  requested = ∅ || !decide (∀ queue ∈ requested, isQueueName queue = true) || l.sourceClosed || l.link.isOpen

/-- `ensure_queue` from the moment it has the lock to its return or its first suspension. -/
def Listener.ensureQueue (i : ι) (queue : String) (l : Listener ι) : Reply × Listener ι :=
  if l.closed then (.raised, l)
  else if queue ∈ l.queues then (.returned, l)
  else
    let l := { l with queues := insert queue l.queues }
    if l.monitor = .none then
      if l.refuses {queue} then (.returned, { l with healthy := false, monitor := .sleeping })
      else (.suspended, { l with
        channels := insert queue l.channels, busy := true, registration := some ⟨i, queue, .connecting⟩ })
    else (.suspended, { l with registration := some ⟨i, queue, .joining⟩ })

/-- The rest of `ensure_queue` at its place; the first session that cannot be made is left to the reconnect loop. -/
def Listener.resume (r : Registration ι) (succeeds : Bool) (l : Listener ι) : Option (Reply × Listener ι) :=
  let free := { l with registration := none }
  match r.place with
  | .connecting =>
    if succeeds then
      some (.returned, { free with busy := false, healthy := true, monitor := .watching, link := .open l.channels })
    else some (.returned, { free with busy := false, healthy := false, monitor := .sleeping })
  | .joining =>
    if !succeeds then none
    else if !isQueueName r.queue then some (.raised, free)
    else if l.busy then none
    else if l.sourceClosed then some (.raised, free)
    else
      let joined := { free with channels := insert r.queue l.channels }
      if l.link.isOpen = true ∧ r.queue ∉ l.channels then
        some (.suspended, { joined with busy := true, registration := some { r with place := .listening } })
      else some (.returned, joined)
  | .listening =>
    if succeeds then
      match l.link with
      | .open listening => some (.returned, { free with busy := false, link := .open (insert r.queue listening) })
      | _ => none
    else some (.raised, { free with busy := false })

/-- The handler is cancelled inside `ensure_queue`. -/
def Listener.abandon (r : Registration ι) (l : Listener ι) : Listener ι :=
  { l with registration := none, busy := if r.place = .joining then l.busy else false }

/-- What the monitor task and the session do by themselves. -/
inductive LinkEvent where
  /-- The session is lost. -/
  | drop
  /-- The monitor sees that it is lost. -/
  | lost
  | wake
  | dial
  /-- The attempt ends. -/
  | dialed (succeeds : Bool)
  /-- `aclose`, in its three parts. -/
  | close
  | closeSource
  | cancelMonitor
  deriving DecidableEq, Repr

def Listener.event (l : Listener ι) : LinkEvent → Option (Listener ι)
  | .drop => if l.link.isOpen then some { l with link := .dead } else none
  | .lost => if l.monitor = .watching ∧ l.link.isOpen = false then
      some { l with healthy := false, monitor := .sleeping } else none
  | .wake => if l.monitor = .sleeping ∧ l.closed = false then some { l with monitor := .waiting l.queues } else none
  | .dial => match l.monitor with
    | .waiting requested =>
      if l.busy then none
      else if l.refuses requested then some { l with healthy := false, monitor := .sleeping }
      else
        let targets := l.channels ∪ requested
        some { l with channels := targets, busy := true, monitor := .dialing targets }
    | _ => none
  | .dialed succeeds => match l.monitor with
    | .dialing targets =>
      if succeeds then some { l with busy := false, healthy := true, monitor := .watching, link := .open targets }
      else some { l with busy := false, healthy := false, monitor := .sleeping }
    | _ => none
  | .close => if l.registration.isNone ∧ l.closed = false then some { l with closed := true } else none
  | .closeSource => if l.closed ∧ l.busy = false ∧ l.sourceClosed = false then
      some { l with sourceClosed := true, link := .none } else none
  | .cancelMonitor => if l.sourceClosed ∧ l.monitor ≠ .none then
      some { l with monitor := .none, busy := match l.monitor with
        | .dialing _ => false
        | _ => l.busy } else none

end Listener

section Polls

variable {ι : Type} [DecidableEq ι]

/-- Where a waiting `_claim` is. -/
inductive Stage where
  | fresh
  /-- Inside `prepare_queue`. -/
  | preparing
  | prepared
  /-- After it has read the generation of its queue. -/
  | claiming (observed : ℕ)
  /-- With a subscription: in the second claim or in the wait. -/
  | subscribed (event : ℕ)
  | done
  deriving DecidableEq, Repr

structure Handler where
  queue : String
  stage : Stage
  /-- A hint for its queue was published after it read the generation; nothing reads this. -/
  owed : Bool

/-- The claim handlers of a process, on one hub and one listener. -/
structure Polls (ι : Type) where
  hub : Hub
  listener : Listener ι
  handler : ι → Handler
  /-- The queues for which `prepare_queue` has returned; nothing reads these. -/
  ready : Finset String

def Polls.start (queue : ι → String) : Polls ι where
  hub := .empty
  listener := .idle
  handler := fun i => ⟨queue i, .fresh, false⟩
  ready := ∅

inductive Action (ι : Type) where
  | begin (i : ι)
  /-- The handler takes the listener's lock. -/
  | enter (i : ι)
  /-- It goes on inside `ensure_queue`. -/
  | resume (i : ι) (succeeds : Bool)
  | read (i : ι)
  | subscribe (i : ι)
  /-- The wait is over, and the loop begins again. -/
  | renew (i : ι)
  /-- The handler ends: it answers, fails or is cancelled. -/
  | leave (i : ι)
  /-- A NOTIFY reaches the session. -/
  | deliver (queue : String)
  /-- The drainer passes it to the hub. -/
  | drain (queue : String)
  | notify (queue : Option String)
  | shutdown
  | link (event : LinkEvent)

def Polls.put (s : Polls ι) (i : ι) (stage : Stage) (owed : Bool) : Polls ι :=
  { s with handler := Function.update s.handler i { s.handler i with stage := stage, owed := owed } }

/-- The handler waits for a hint: it has read its generation and is not done. -/
def Stage.waits : Stage → Bool
  | .claiming _ | .subscribed _ => true
  | _ => false

/-- Publish through the hub. A hint counts for the handlers of the queue that wait for one. -/
def Polls.publish (queue : Option String) (s : Polls ι) : Polls ι :=
  if s.hub.closed then s
  else { s with
    hub := s.hub.notify queue
    handler := fun i =>
      let h := s.handler i
      { h with owed := h.owed || (h.stage.waits && queue.all (· = h.queue)) } }

/-- The handler after a step of `ensure_queue`. -/
def Polls.answer (s : Polls ι) (i : ι) : Reply × Listener ι → Polls ι
  | (.returned, l) =>
    { ({ s with listener := l, ready := insert (s.handler i).queue s.ready } : Polls ι).put i .prepared false with }
  | (.raised, l) => ({ s with listener := l } : Polls ι).put i .done false
  | (.suspended, l) => { s with listener := l }

def Polls.step (s : Polls ι) : Action ι → Option (Polls ι)
  | .begin i => match (s.handler i).stage with
    | .fresh => some (s.put i (if s.hub.closed then .done else .preparing) false)
    | _ => none
  | .enter i =>
    if (s.handler i).stage = .preparing ∧ s.listener.registration.isNone then
      some (s.answer i (s.listener.ensureQueue i (s.handler i).queue))
    else none
  | .resume i succeeds => match s.listener.registration with
    | some r => if r.handler = i then (s.listener.resume r succeeds).map (s.answer i) else none
    | none => none
  | .read i => match (s.handler i).stage with
    | .prepared => some (s.put i (.claiming (s.hub.queueGeneration (s.handler i).queue)) false)
    | _ => none
  | .subscribe i => match (s.handler i).stage with
    | .claiming observed => match s.hub.subscribe observed (some (s.handler i).queue) with
      | none => some (s.put i .done false)
      | some (event, hub) => some (({ s with hub := hub } : Polls ι).put i (.subscribed event) (s.handler i).owed)
    | _ => none
  | .renew i => match (s.handler i).stage with
    | .subscribed event =>
      some (({ s with hub := s.hub.remove event (some (s.handler i).queue) } : Polls ι).put i .prepared false)
    | _ => none
  | .leave i => match (s.handler i).stage with
    | .subscribed event =>
      some (({ s with hub := s.hub.remove event (some (s.handler i).queue) } : Polls ι).put i .done false)
    | .preparing => match s.listener.registration with
      | some r =>
        if r.handler = i then some (({ s with listener := s.listener.abandon r } : Polls ι).put i .done false)
        else some (s.put i .done false)
      | none => some (s.put i .done false)
    | .done => none
    | _ => some (s.put i .done false)
  | .deliver queue => match s.listener.link with
    | .open listening =>
      if queue ∈ listening then
        some { s with listener := { s.listener with pending := insert queue s.listener.pending } }
      else none
    | _ => none
  | .drain queue =>
    if queue ∈ s.listener.pending then
      some (({ s with
        listener := { s.listener with pending := s.listener.pending.erase queue } } : Polls ι).publish (some queue))
    else none
  | .notify queue => some (s.publish queue)
  | .shutdown => some (if s.hub.closed then s else { s with
      hub := s.hub.shutdown
      handler := fun i => { s.handler i with owed := (s.handler i).owed || (s.handler i).stage.waits } })
  -- a new session of the reconnect loop is announced to every queue in the same stretch
  | .link event => (s.listener.event event).map fun l =>
      if event = .dialed true then ({ s with listener := l } : Polls ι).publish none else { s with listener := l }

inductive Polls.Run (permitted : Polls ι → Action ι → Prop) : Polls ι → Prop
  | start (queue : ι → String) : Polls.Run permitted (.start queue)
  | step {s s' : Polls ι} {action : Action ι} (before : Polls.Run permitted s) (allowed : permitted s action)
      (step : s.step action = some s') : Polls.Run permitted s'

end Polls

end Taskq.Http
