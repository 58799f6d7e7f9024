import Mathlib.Data.Prod.Lex
import Mathlib.Data.List.Sort
import Mathlib.Data.List.Dedup
import Taskq.Continuations.Registry

/-! Continuation policies: the member graph that a set of roots leads to, in one canonical form with a hash, its check
against a registry, and its enforcement on the followups of a parent. -/
namespace Taskq.Continuations
open Relational

section Manifest

structure ContinuationPolicyNode where
  jobType : WireName
  queue : QueueName
  deriving DecidableEq

/-- A parent with the revision and the targets that are pinned. -/
structure ContinuationPolicyParent extends ContinuationPolicyNode where
  revision : Revision
  targets : List ContinuationPolicyNode
  deriving DecidableEq

structure ContinuationPolicyManifest where
  roots : List ContinuationPolicyNode
  parents : List ContinuationPolicyParent
  deriving DecidableEq

/-- The compiled policy. The text stands for its ASCII bytes. -/
structure CompiledContinuationPolicy where
  manifest : ContinuationPolicyManifest
  canonicalBytes : String
  continuationPolicyHash : String
  reachableQueues : List QueueName
  deriving DecidableEq

def maxContinuationPolicyQueues : ℕ := 32

def Task.node (t : Task) : ContinuationPolicyNode := ⟨t.name, t.queue⟩

/-- The key of the canonical order: the queue, then the name. -/
def ContinuationPolicyNode.identity (n : ContinuationPolicyNode) : String ×ₗ String := toLex (n.queue.val, n.jobType.val)

/-- `sorted(…, key=…)`. -/
def canonicalOrder {α : Type} (identity : α → String ×ₗ String) (l : List α) : List α :=
  l.insertionSort fun a b => identity a ≤ identity b

/-- `sorted(set(…))` of queues. -/
def sortedQueues (queues : List QueueName) : List QueueName := queues.dedup.insertionSort fun a b => a.val ≤ b.val

end Manifest

section Bytes

def quotedName (s : String) : String := "\"" ++ s ++ "\""

/-- An object of which the keys are given in order. -/
def objectText (fields : List (String × String)) : String :=
  "\x7b" ++ String.intercalate "," (fields.map fun f => quotedName f.1 ++ ":" ++ f.2) ++ "\x7d"

def arrayText (items : List String) : String := "[" ++ String.intercalate "," items ++ "]"

def ContinuationPolicyNode.text (n : ContinuationPolicyNode) : String :=
  objectText [("job_type", quotedName n.jobType), ("queue", quotedName n.queue)]

def ContinuationPolicyParent.text (p : ContinuationPolicyParent) : String :=
  objectText [("job_type", quotedName p.jobType), ("queue", quotedName p.queue), ("revision", quotedName p.revision),
    ("targets", arrayText (p.targets.map (·.text)))]

/-- `json.dumps(…, sort_keys=True, separators=(",", ":"))`. The names need no escapes. -/
def ContinuationPolicyManifest.bytes (m : ContinuationPolicyManifest) : String :=
  objectText [("format", "1"), ("parents", arrayText (m.parents.map (·.text))), ("roots", arrayText (m.roots.map (·.text)))]

end Bytes

section Compile

variable (r : TaskRegistry)

/-- What the compiler has collected. -/
structure Walk where
  visited : List WireName
  queues : List QueueName
  parents : List ContinuationPolicyParent

/-- The body of the loop for a parent that was not visited: the children that it pushes. -/
def visit (parent : Task) (w : Walk) : Except TaskError (List Task × Walk) :=
  let w := { w with visited := w.visited ++ [parent.name] }
  if parent.memberTargets = [] then .ok ([], w)
  else do
    let revisions := (parent.memberTargets.map (·.continuationRevision)).dedup
    ensure (revisions.length = 1)
      (.config ("member-enabled targets for " ++ named parent.name ++ " must share one continuation revision"))
    match revisions.head?.join with
    | none => .error (.config ("member-enabled targets for " ++ named parent.name ++ " require a continuation revision"))
    | some revision => do
      let children ← parent.memberTargets.mapM fun declared => r.require (.name declared.jobType)
      let targets := children.map Task.node
      ensure targets.Nodup
        (.config ("member-enabled targets for " ++ named parent.name ++ " must be canonically distinct"))
      .ok (children, { w with
        queues := w.queues ++ children.map (·.queue)
        parents := w.parents ++ [⟨parent.node, revision, canonicalOrder (·.identity) targets⟩] })

/-- `while pending`, with the last element of the source's list in front. -/
def walk : ℕ → List Task → Walk → Except TaskError Walk
  | 0, _, w => .ok w
  | _+1, [], w => .ok w
  | n+1, parent :: pending, w =>
    if parent.name ∈ w.visited then walk n pending w
    else do
      let (children, w) ← visit r parent w
      walk n (children.reverse ++ pending) w

/-- The rounds of the loop: one for every root and every declared edge at most. -/
def rounds (roots : List Task) : ℕ := roots.length + (r.canonical.map fun t => t.followupTargets.length).sum

/-- `compile_continuation_policy`. -/
def compileContinuationPolicy (sha256 : String → String) (roots : List TaskRef) :
    Except TaskError CompiledContinuationPolicy := do
  r.validateFollowupGraph
  let resolvedRoots ← roots.mapM r.require
  ensure (resolvedRoots ≠ []) (.config "continuation policy requires at least one root task")
  ensure ((resolvedRoots.map Task.node).Nodup) (.config "continuation policy roots must be canonically distinct")
  let w ← walk r (rounds r resolvedRoots) resolvedRoots.reverse ⟨[], resolvedRoots.map (·.queue), []⟩
  ensure ((sortedQueues w.queues).length ≤ maxContinuationPolicyQueues)
    (.config "continuation policy reaches more than 32 queues")
  let manifest : ContinuationPolicyManifest :=
    ⟨(canonicalOrder (·.node.identity) resolvedRoots).map Task.node, canonicalOrder (·.identity) w.parents⟩
  .ok ⟨manifest, manifest.bytes, sha256 manifest.bytes, sortedQueues w.queues⟩

end Compile

section Validate

variable (r : TaskRegistry)

/-- `_require_policy_node`. -/
def requirePolicyNode (n : ContinuationPolicyNode) : Except TaskError Task :=
  match (r.resolve n.jobType).filter fun task => task.name = n.jobType ∧ task.queue = n.queue with
  | none => .error (.config ("continuation policy node is not runnable in the worker registry: " ++
      identityText n.queue n.jobType))
  | some task => .ok task

/-- A list is in canonical order, without repetition. -/
def isCanonical (nodes : List ContinuationPolicyNode) : Bool :=
  nodes = canonicalOrder (·.identity) nodes && decide nodes.Nodup

/-- The member edges that a parent declares now, each with its canonical name. -/
def liveMemberEdges (parent : Task) : Except TaskError (List ContinuationPolicyNode) := do
  let edges ← parent.followupTargets.mapM fun declared => do
    let child ← r.require (.name declared.jobType)
    .ok (declared.workflowMember, (⟨child.name, declared.queue⟩ : ContinuationPolicyNode))
  .ok ((edges.filter (·.1)).map (·.2))

/-- One pinned parent: its targets are runnable edges of the live task. -/
def validateParent (pinned : ContinuationPolicyParent) : Except TaskError Unit := do
  let parent ← requirePolicyNode r pinned.toContinuationPolicyNode
  ensure (isCanonical pinned.targets)
    (.config ("continuation policy targets are not canonical for parent: " ++ named pinned.jobType))
  let live ← liveMemberEdges r parent
  pinned.targets.forM fun target => do
    let child ← requirePolicyNode r target
    ensure ((⟨child.name, target.queue⟩ : ContinuationPolicyNode) ∈ live)
      (.config ("retained continuation edge is not runnable for parent: " ++ named parent.name ++ " -> " ++
        identityText target.queue child.name))

/-- `validate_compiled_continuation_policy`. -/
def validateCompiledContinuationPolicy (sha256 : String → String) (policy : CompiledContinuationPolicy) :
    Except TaskError Unit := do
  ensure (policy.canonicalBytes = policy.manifest.bytes)
    (.config "continuation policy canonical bytes do not match its manifest")
  ensure (isSha256 policy.continuationPolicyHash = true ∧ sha256 policy.manifest.bytes = policy.continuationPolicyHash)
    (.config "continuation policy hash does not match its manifest")
  ensure (isCanonical policy.manifest.roots) (.config "continuation policy roots are not canonical and distinct")
  ensure (isCanonical (policy.manifest.parents.map (·.toContinuationPolicyNode)))
    (.config "continuation policy parents are not canonical and distinct")
  policy.manifest.roots.forM fun root => do
    let _ ← requirePolicyNode r root
    .ok ()
  policy.manifest.parents.forM (validateParent r)
  ensure (policy.reachableQueues = sortedQueues (policy.manifest.roots.map (·.queue) ++
      policy.manifest.parents.flatMap fun p => p.targets.map (·.queue)))
    (.config "continuation policy reachable queues do not match its manifest")

end Validate

section Enforce

variable {π : Type}

/-- `enforce_continuation_policy`. -/
def enforceContinuationPolicy (parent : Task) (followups : List (Followup π))
    (policy : Option CompiledContinuationPolicy) : Except TaskError (List (Followup π)) :=
  if followups.filter (·.workflowMember) = [] then .ok followups
  else
    match policy with
    | none => .error (.invalidFollowup "workflow member followups require a continuation policy")
    | some policy => do
      let allowed := ((policy.manifest.parents.find? (·.toContinuationPolicyNode = parent.node)).map (·.targets)).getD []
      (followups.filter (·.workflowMember)).forM fun followup => do
        let queue := followup.queue.getD parent.queue
        ensure ((⟨followup.jobType, queue⟩ : ContinuationPolicyNode) ∈ allowed)
          (.invalidFollowup ("followup target is absent from the claimed continuation policy: " ++
            identityText queue followup.jobType))
      .ok followups

end Enforce

end Taskq.Continuations
