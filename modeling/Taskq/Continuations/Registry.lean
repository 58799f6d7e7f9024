import Mathlib.Data.List.Nodup
import Mathlib.Data.String.Basic
import Taskq.Model.Values

/-! Task metadata and its registration: names without collisions, the followup graph that a worker checks before it claims,
and the followups of one handler. -/
namespace Taskq.Continuations
open Relational

section Names

/-- `[a-z][a-z0-9_]*(?:\.[a-z][a-z0-9_]*)*`, up to 120 characters. -/
def isWireName (s : String) : Bool :=
  1 ≤ s.length && s.length ≤ 120 && (s.toList.splitOn '.').all fun word =>
    match word with
    | [] => false
    | c :: cs => c.isLower && cs.all fun d => isLowerAlnum d || d = '_'

abbrev WireName := { s : String // isWireName s = true }
abbrev QueueName := { s : String // isQueueName s = true }

/-- A continuation revision has the pattern of a step. -/
abbrev Revision := { s : String // isStepKey s = true }

end Names

/-- An error of the registry: `TaskqConfigError`, its subclass `InvalidFollowupError`, or `UnknownTaskError`. -/
inductive TaskError where
  | config (message : String)
  | invalidFollowup (message : String)
  | unknownTask (name : String)
  deriving DecidableEq, Repr

/-- `repr` of a name, which has no quote and no backslash. -/
def named (name : String) : String := "'" ++ name ++ "'"

/-- `repr` of a queue with a name. -/
def identityText (queue : QueueName) (name : WireName) : String := "(" ++ named queue ++ ", " ++ named name ++ ")"

/-- A child that a task declares: with a revision exactly when it joins the workflow. -/
structure FollowupTarget where
  queue : QueueName
  jobType : WireName
  workflowMember : Bool
  continuationRevision : Option Revision
  paired : workflowMember = continuationRevision.isSome
  deriving DecidableEq

/-- `Task`: its identity as an object, its names and what it declares. -/
structure Task where
  object : ℕ
  name : WireName
  queue : QueueName
  aliases : List WireName
  followupTargets : List FollowupTarget
  names : (name :: aliases).Nodup
  targets : (followupTargets.map fun t => (t.queue, t.jobType)).Nodup
  revision : ∀ t ∈ followupTargets, ∀ t' ∈ followupTargets, t.workflowMember = true → t'.workflowMember = true →
    t.continuationRevision = t'.continuationRevision
  deriving DecidableEq

namespace Task

/-- The names under which a task is found. -/
def keys (t : Task) : List WireName := t.name :: t.aliases

/-- The declared edges to members of the workflow. -/
def memberTargets (t : Task) : List FollowupTarget := t.followupTargets.filter (·.workflowMember)

end Task

/-- `TaskRegistry`: the canonical tasks in the order of registration. No two share a name. -/
structure TaskRegistry where
  canonical : List Task
  distinct : (canonical.flatMap Task.keys).Nodup

/-- A task, or one of its names. -/
inductive TaskRef where
  | task (t : Task)
  | name (s : String)

namespace TaskRegistry

variable (r : TaskRegistry)

/-- The index of the names. -/
def lookup : List (WireName × Task) := r.canonical.flatMap fun t => t.keys.map fun key => (key, t)

/-- `register_many`, for the tasks that are left. Nothing is registered when one collides. -/
def registerMany : List Task → TaskRegistry → Except TaskError TaskRegistry
  | [], r => .ok r
  | t :: ts, r =>
    if free : t.keys.filter (· ∈ r.canonical.flatMap Task.keys) = [] then
      registerMany ts ⟨r.canonical ++ [t], by
        rw [List.flatMap_append, List.flatMap_singleton, List.nodup_append]
        exact ⟨r.distinct, t.names, fun a there b own same =>
          List.filter_eq_nil_iff.mp free b own (decide_eq_true (same ▸ there))⟩⟩
    else
      .error (.config ("task name collision: " ++ named
        ((((t.keys.filter (· ∈ r.canonical.flatMap Task.keys)).map (·.val)).insertionSort (· ≤ ·)).headD "")))

def empty : TaskRegistry := ⟨[], List.nodup_nil⟩

def resolve (name : String) : Option Task := (r.lookup.find? (·.1.val = name)).map (·.2)

/-- `require`: a name is looked up, a task must be the registered object. -/
def require : TaskRef → Except TaskError Task
  | .name name =>
    match r.resolve name with
    | none => .error (.unknownTask name)
    | some t => .ok t
  | .task t =>
    match r.canonical.find? (·.name = t.name) with
    | none => .error (.unknownTask t.name)
    | some registered => if registered = t then .ok registered else .error (.unknownTask t.name)

/-- The declarations of one parent, after those whose identities are given. -/
def checkTargets (parent : Task) : List FollowupTarget → List (QueueName × WireName) → Except TaskError Unit
  | [], _ => .ok ()
  | declared :: rest, identities =>
    match r.resolve declared.jobType with
    | none => .error (.config ("followup target is not registered: " ++ named declared.jobType))
    | some child => do
      ensure (child.queue = declared.queue)
        (.config ("followup target queue does not match registered task: " ++ named declared.jobType))
      ensure ((declared.queue, child.name) ∉ identities)
        (.config ("followup targets are not canonically distinct for parent: " ++ named parent.name))
      checkTargets parent rest (identities ++ [(declared.queue, child.name)])

/-- `validate_followup_graph`. -/
def validateFollowupGraph : Except TaskError Unit :=
  r.canonical.forM fun parent => r.checkTargets parent parent.followupTargets []

end TaskRegistry

section Followups

variable {π : Type}

/-- A child that a handler asks for, with a payload. -/
structure Followup (π : Type) where
  step : String
  jobType : WireName
  queue : Option QueueName
  payload : π
  workflowMember : Bool

namespace TaskRegistry

variable (r : TaskRegistry)

/-- The declarations of a parent under their canonical identities. -/
def declarations (parent : Task) : List FollowupTarget → List ((QueueName × WireName) × FollowupTarget) →
    Except TaskError (List ((QueueName × WireName) × FollowupTarget))
  | [], declared => .ok declared
  | item :: rest, declared =>
    match r.resolve item.jobType with
    | none => .error (.config ("followup target is not registered: " ++ named item.jobType))
    | some target => do
      ensure ((item.queue, target.name) ∉ declared.map (·.1))
        (.config ("followup targets are not canonically distinct for parent: " ++ named parent.name))
      declarations parent rest (declared ++ [((item.queue, target.name), item)])

/-- One followup in canonical form. The payload is validated by the model of the target. -/
def normalizeFollowup (validatePayload : Task → π → Option π) (parent : Task)
    (declared : List ((QueueName × WireName) × FollowupTarget)) (followup : Followup π) : Except TaskError (Followup π) :=
  match r.resolve followup.jobType with
  | none => .error (.invalidFollowup ("followup task is not registered: " ++ named followup.jobType))
  | some target =>
    let queue := followup.queue.getD parent.queue
    match (declared.find? (·.1 = (queue, target.name))).filter fun _ => target.queue = queue with
    | none => .error (.invalidFollowup ("followup target is not declared for parent: " ++ identityText queue target.name))
    | some (_, declaration) => do
      ensure (followup.workflowMember = true → declaration.workflowMember = true)
        (.invalidFollowup ("followup target is not member-enabled for parent: " ++ identityText queue target.name))
      match validatePayload target followup.payload with
      | none => .error (.invalidFollowup ("followup payload is invalid for target: " ++ named target.name))
      | some payload =>
        .ok { followup with
          jobType := target.name, queue := if queue = parent.queue then none else some queue, payload := payload }

/-- `normalize_followups`. -/
def normalizeFollowups (validatePayload : Task → π → Option π) (parent : Task) (followups : List (Followup π)) :
    Except TaskError (List (Followup π)) := do
  let declared ← r.declarations parent parent.followupTargets []
  followups.mapM (r.normalizeFollowup validatePayload parent declared)

end TaskRegistry

end Followups

end Taskq.Continuations
