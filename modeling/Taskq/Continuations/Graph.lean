import Taskq.Library.Worklist
import Taskq.Continuations.Policy

/-! The member graph of a registry: what its index finds, what the check of the graph ensures, and what the loop of the
compiler collects. -/
namespace Taskq.Continuations
open Relational

namespace TaskRegistry

variable {r : TaskRegistry} {t t' parent child : Task} {name : String}

/-- Two tasks that share a name are one. -/
theorem eq_of_key {key : WireName} (there : t ∈ r.canonical) (there' : t' ∈ r.canonical) (own : key ∈ t.keys)
    (own' : key ∈ t'.keys) : t = t' := by
  by_contra apart
  have : Std.Symm (Function.onFun List.Disjoint Task.keys) := ⟨fun _ _ disjoint => disjoint.symm⟩
  exact (List.nodup_flatMap.mp r.distinct).2.forall there there' apart own own'

theorem eq_of_name (there : t ∈ r.canonical) (there' : t' ∈ r.canonical) (same : t.name = t'.name) : t = t' :=
  eq_of_key there there' List.mem_cons_self (same ▸ List.mem_cons_self)

theorem names_nodup (r : TaskRegistry) : (r.canonical.map Task.name).Nodup := by
  have disjoint := (List.nodup_flatMap.mp r.distinct).2
  refine List.pairwise_map.mpr (disjoint.imp fun apart same => ?_)
  exact apart List.mem_cons_self (same ▸ List.mem_cons_self)

/-- The index finds a task under each of its names. -/
theorem resolve_eq_some : r.resolve name = some t ↔ t ∈ r.canonical ∧ ∃ key ∈ t.keys, key.val = name := by
  have indexed (entry : WireName × Task) : entry ∈ r.lookup ↔ entry.2 ∈ r.canonical ∧ entry.1 ∈ entry.2.keys := by
    simp only [lookup, List.mem_flatMap, List.mem_map]
    constructor
    · rintro ⟨t, there, key, own, rfl⟩
      exact ⟨there, own⟩
    · exact fun ⟨there, own⟩ => ⟨_, there, _, own, rfl⟩
  rw [resolve, Option.map_eq_some_iff]
  constructor
  · rintro ⟨entry, found, rfl⟩
    obtain ⟨there, own⟩ := (indexed entry).mp (List.mem_of_find?_eq_some found)
    exact ⟨there, entry.1, own, of_decide_eq_true (List.find?_some found :)⟩
  · rintro ⟨there, key, own, rfl⟩
    cases found : r.lookup.find? (fun entry => decide (entry.1.val = key.val)) with
    | none =>
      have missed := List.find?_eq_none.mp found (key, t) ((indexed (key, t)).mpr ⟨there, own⟩)
      exact absurd (decide_eq_true rfl) missed
    | some entry =>
      obtain ⟨there', own'⟩ := (indexed entry).mp (List.mem_of_find?_eq_some found)
      have same : entry.1 = key := Subtype.ext (of_decide_eq_true (List.find?_some found :))
      exact ⟨entry, rfl, eq_of_key there' there own' (same ▸ own)⟩

theorem resolve_name (there : t ∈ r.canonical) : r.resolve t.name = some t :=
  resolve_eq_some.mpr ⟨there, t.name, List.mem_cons_self, rfl⟩

theorem require_name_eq_ok : r.require (.name name) = .ok t ↔ r.resolve name = some t := by
  rw [require]
  cases r.resolve name <;> simp

/-- A required task is registered. -/
theorem require_mem {ref : TaskRef} (found : r.require ref = .ok t) : t ∈ r.canonical := by
  cases ref with
  | name name => exact (resolve_eq_some.mp (require_name_eq_ok.mp found)).1
  | task given =>
    rw [require] at found
    split at found
    · cases found
    · rename_i registered here
      split_ifs at found
      cases found
      exact List.mem_of_find?_eq_some here

/-- The member edges of a registered task lead to registered tasks of the declared queues, each to another one. -/
structure Wired (r : TaskRegistry) : Prop where
  child : ∀ parent ∈ r.canonical, ∀ d ∈ parent.followupTargets,
    ∃ child, r.resolve d.jobType = some child ∧ child.queue = d.queue
  distinct : ∀ parent ∈ r.canonical, (parent.followupTargets.filterMap fun d => r.resolve d.jobType).Nodup

theorem checkTargets_ok {targets : List FollowupTarget} {identities : List (QueueName × WireName)} {u : Unit}
    (check : r.checkTargets parent targets identities = .ok u) :
    (∀ d ∈ targets, ∃ child, r.resolve d.jobType = some child ∧ child.queue = d.queue) ∧
      (targets.filterMap fun d => r.resolve d.jobType).Nodup ∧
      ∀ child ∈ targets.filterMap fun d => r.resolve d.jobType, (child.queue, child.name) ∉ identities := by
  induction targets generalizing identities with
  | nil => exact ⟨fun _ => nofun, List.nodup_nil, fun _ => nofun⟩
  | cons d targets ih =>
    rw [checkTargets] at check
    cases found : r.resolve d.jobType with
    | none =>
      rw [found] at check
      cases check
    | some child =>
      rw [found] at check
      simp only [seq_eq_ok, ensure_eq_ok] at check
      obtain ⟨_, queue, _, fresh, rest⟩ := check
      obtain ⟨children, distinct, apart⟩ := ih rest
      have unused : child ∉ targets.filterMap fun d => r.resolve d.jobType :=
        fun later => apart child later (by rw [queue]; exact List.mem_append_right _ List.mem_cons_self)
      rw [List.filterMap_cons, found]
      refine ⟨List.forall_mem_cons.mpr ⟨⟨child, found, queue⟩, children⟩, List.nodup_cons.mpr ⟨unused, distinct⟩, ?_⟩
      refine List.forall_mem_cons.mpr ⟨queue ▸ fresh, fun other later old => apart other later (List.mem_append_left _ old)⟩

/-- A registry whose graph validates is wired. -/
theorem wired_of_validated (validated : r.validateFollowupGraph = .ok ()) : r.Wired := by
  have checks := forM_eq_ok.mp validated
  exact ⟨fun parent there => (checkTargets_ok (checks parent there)).1,
    fun parent there => (checkTargets_ok (checks parent there)).2.1⟩

/-- The workflow-member edges. -/
def MemberEdge (r : TaskRegistry) (parent child : Task) : Prop :=
  ∃ d ∈ parent.followupTargets, d.workflowMember = true ∧ r.resolve d.jobType = some child

/-- The tasks that member edges lead to from the roots. -/
def Reached (r : TaskRegistry) (roots : List Task) (t : Task) : Prop :=
  ∃ root ∈ roots, Relation.ReflTransGen r.MemberEdge root t

/-- The children that the compiler pushes for a parent. -/
def memberChildren (r : TaskRegistry) (parent : Task) : List Task :=
  parent.memberTargets.filterMap fun d => r.resolve d.jobType

theorem mem_memberChildren : child ∈ r.memberChildren parent ↔ r.MemberEdge parent child := by
  simp only [memberChildren, Task.memberTargets, MemberEdge, List.mem_filterMap, List.mem_filter, and_assoc]

theorem MemberEdge.registered (edge : r.MemberEdge parent child) : child ∈ r.canonical := by
  obtain ⟨d, -, -, found⟩ := edge
  exact (resolve_eq_some.mp found).1

theorem leads_iff_reached {roots : List Task} : Leads r.memberChildren roots t ↔ r.Reached roots t := by
  have same : (fun a b => b ∈ r.memberChildren a) = r.MemberEdge := by
    funext a b
    exact propext mem_memberChildren
  rw [Leads, same, Reached]

theorem Reached.registered {roots : List Task} (registered : ∀ t ∈ roots, t ∈ r.canonical) (reached : r.Reached roots t) :
    t ∈ r.canonical := by
  obtain ⟨root, start, path⟩ := reached
  cases path with
  | refl => exact registered t start
  | tail _ edge => exact edge.registered

theorem Wired.memberChildren_nodup (wired : r.Wired) (there : parent ∈ r.canonical) : (r.memberChildren parent).Nodup :=
  (wired.distinct parent there).sublist (List.filter_sublist.filterMap _)

/-- The nodes of registered tasks are distinct when the tasks are. -/
theorem nodes_nodup {tasks : List Task} (registered : ∀ t ∈ tasks, t ∈ r.canonical) (distinct : tasks.Nodup) :
    (tasks.map Task.node).Nodup := by
  refine List.Nodup.map_on (fun t there t' there' same => ?_) distinct
  exact eq_of_name (registered t there) (registered t' there') (congrArg ContinuationPolicyNode.jobType same)

end TaskRegistry

section Walk

variable {r : TaskRegistry} {t parent : Task} {roots seen pending : List Task} {n : ℕ}

/-- The revision that the member edges of a task share. -/
def revisionOf (t : Task) : Option Revision := t.memberTargets.head?.bind (·.continuationRevision)

/-- The entry of a task that has member edges. -/
def pin (r : TaskRegistry) (t : Task) : Option ContinuationPolicyParent :=
  (revisionOf t).map fun revision => ⟨t.node, revision, canonicalOrder (·.identity) ((r.memberChildren t).map Task.node)⟩

/-- What the compiler holds when it has visited these tasks. -/
def collect (r : TaskRegistry) (roots seen : List Task) : Walk where
  visited := seen.map Task.name
  queues := roots.map (·.queue) ++ seen.flatMap fun t => (r.memberChildren t).map (·.queue)
  parents := seen.filterMap (pin r)

/-- A member edge has a revision. -/
theorem memberTarget_revision {d : FollowupTarget} (member : d ∈ t.memberTargets) :
    d.continuationRevision ≠ none ∧ d.continuationRevision = revisionOf t := by
  obtain ⟨first, rest, split⟩ := List.exists_cons_of_ne_nil (List.ne_nil_of_mem member)
  have head : first ∈ t.memberTargets := split ▸ List.mem_cons_self
  obtain ⟨declared, joins⟩ := List.mem_filter.mp member
  obtain ⟨declared', joins'⟩ := List.mem_filter.mp head
  refine ⟨fun none => ?_, ?_⟩
  · rw [d.paired, none] at joins
    cases joins
  · rw [revisionOf, split]
    exact t.revision d declared first declared' joins joins'

theorem revisionOf_eq_none : revisionOf t = none ↔ t.memberTargets = [] := by
  constructor
  · intro none
    by_contra some
    obtain ⟨first, rest, split⟩ := List.exists_cons_of_ne_nil some
    obtain ⟨revised, same⟩ := memberTarget_revision (show first ∈ t.memberTargets from split ▸ List.mem_cons_self)
    exact revised (same.trans none)
  · intro none
    rw [revisionOf, none]
    rfl

/-- All member edges of a task have one revision. -/
theorem revisions_dedup {revision : Revision} (own : revisionOf t = some revision) :
    (t.memberTargets.map (·.continuationRevision)).dedup = [some revision] := by
  have all : ∀ x ∈ t.memberTargets.map (·.continuationRevision), x = some revision := by
    intro x there
    obtain ⟨d, member, rfl⟩ := List.mem_map.mp there
    exact (memberTarget_revision member).2.trans own
  have some : t.memberTargets ≠ [] := fun none => by simp [revisionOf_eq_none.mpr none] at own
  rw [List.eq_replicate_of_mem all, List.length_map]
  obtain ⟨m, length⟩ := Nat.exists_eq_succ_of_ne_zero (mt List.length_eq_zero_iff.mp some)
  rw [length, Nat.succ_eq_add_one, List.replicate_dedup (Nat.succ_ne_zero m)]

theorem forall₂_filterMap {α β : Type} {f : α → Option β} {l : List α} (total : ∀ a ∈ l, ∃ b, f a = some b) :
    List.Forall₂ (fun a b => f a = some b) l (l.filterMap f) := by
  induction l with
  | nil => exact .nil
  | cons a l ih =>
    obtain ⟨⟨b, first⟩, rest⟩ := List.forall_mem_cons.mp total
    rw [List.filterMap_cons_some first]
    exact .cons first (ih rest)

theorem collect_append : collect r roots (seen ++ [t]) =
    ⟨(collect r roots seen).visited ++ [t.name],
      (collect r roots seen).queues ++ (r.memberChildren t).map (·.queue),
      (collect r roots seen).parents ++ (pin r t).toList⟩ := by
  simp only [collect, List.map_append, List.map_singleton, List.flatMap_append, List.flatMap_singleton,
    List.filterMap_append, List.append_assoc]
  cases found : pin r t <;> simp [found]

/-- A visit of a registered task succeeds, and adds what is to be collected of it. -/
theorem visit_eq (wired : r.Wired) (there : parent ∈ r.canonical) :
    visit r parent (collect r roots seen) = .ok (r.memberChildren parent, collect r roots (seen ++ [parent])) := by
  have children : parent.memberTargets.mapM (fun d => r.require (.name d.jobType)) = .ok (r.memberChildren parent) := by
    have found : List.Forall₂ (fun d child => r.resolve d.jobType.val = some child) parent.memberTargets
        (r.memberChildren parent) := forall₂_filterMap fun d member =>
      (wired.child parent there d (List.mem_filter.mp member).1).imp fun child found => found.1
    exact mapM_eq_ok.mpr (found.imp fun d child found => TaskRegistry.require_name_eq_ok.mpr found)
  rw [collect_append]
  cases own : revisionOf parent with
  | none =>
    have bare := revisionOf_eq_none.mp own
    simp [visit, bare, pin, own, TaskRegistry.memberChildren]
  | some revision =>
    have some : parent.memberTargets ≠ [] := fun none => by simp [revisionOf_eq_none.mpr none] at own
    have registered : ∀ child ∈ r.memberChildren parent, child ∈ r.canonical :=
      fun child edge => (TaskRegistry.mem_memberChildren.mp edge).registered
    have distinct := TaskRegistry.nodes_nodup registered (wired.memberChildren_nodup there)
    simp [visit, some, revisions_dedup own, children, distinct, pin, own, ensure, bind, Except.bind]

/-- A round of the loop. -/
theorem walk_cons {w : Walk} : walk r (n + 1) (parent :: pending) w =
    if parent.name ∈ w.visited then walk r n pending w
    else visit r parent w >>= fun visited => walk r n (visited.1.reverse ++ pending) visited.2 := rfl

/-- The loop never raises in a wired registry: it collects what the drained stack leaves. -/
theorem walk_eq (wired : r.Wired) (registered : ∀ t ∈ pending, t ∈ r.canonical) :
    walk r n pending (collect r roots seen) =
      .ok (collect r roots (drain Task.name r.memberChildren n pending seen)) := by
  induction n generalizing pending seen with
  | zero => rfl
  | succ n ih =>
    cases pending with
    | nil => rfl
    | cons parent pending =>
      obtain ⟨first, rest⟩ := List.forall_mem_cons.mp registered
      rw [walk_cons, drain]
      by_cases old : parent.name ∈ seen.map Task.name
      · rw [if_pos old, if_pos (show parent.name ∈ (collect r roots seen).visited from old)]
        exact ih rest
      · rw [if_neg old, if_neg (show parent.name ∉ (collect r roots seen).visited from old), visit_eq wired first]
        refine ih fun t there => ?_
        obtain child | later := List.mem_append.mp there
        · exact (TaskRegistry.mem_memberChildren.mp (List.mem_reverse.mp child)).registered
        · exact rest t later

end Walk

end Taskq.Continuations
