import Taskq.Continuations.Graph

/-! The continuation policy of a registry and its roots: one canonical document of the member graph that they reach, which
the registry accepts and which the followups of a parent are held to. -/
namespace Taskq.Continuations
open Relational

section Order

variable {α : Type} {identity : α → String ×ₗ String} {l l' : List α} {nodes : List ContinuationPolicyNode}

/-- In canonical order, without repetition. -/
def Ascending (identity : α → String ×ₗ String) (l : List α) : Prop := l.Pairwise fun a b => identity a < identity b

/-- A canonical list is determined by its members. -/
theorem Ascending.eq_of_mem (first : Ascending identity l) (second : Ascending identity l') (same : ∀ a, a ∈ l ↔ a ∈ l') :
    l = l' := by
  have : Std.Antisymm fun a b : α => identity a < identity b := ⟨fun _ _ less more => absurd more less.asymm⟩
  have : Std.Irrefl fun a b : α => identity a < identity b := ⟨fun _ => lt_irrefl _⟩
  exact List.Pairwise.eq_of_mem_iff first second same

theorem canonicalOrder_perm (identity : α → String ×ₗ String) (l : List α) : (canonicalOrder identity l).Perm l :=
  List.perm_insertionSort _ l

theorem canonicalOrder_ascending (distinct : (l.map identity).Nodup) : Ascending identity (canonicalOrder identity l) := by
  have : Std.Total fun a b : α => identity a ≤ identity b := ⟨fun a b => le_total (identity a) (identity b)⟩
  have : IsTrans α fun a b : α => identity a ≤ identity b := ⟨fun _ _ _ => le_trans⟩
  have sorted : (canonicalOrder identity l).Pairwise fun a b => identity a ≤ identity b := List.pairwise_insertionSort _ l
  have apart : ((canonicalOrder identity l).map identity).Nodup :=
    ((canonicalOrder_perm identity l).map identity).nodup_iff.mpr distinct
  exact (sorted.and (List.pairwise_map.mp apart)).imp fun both => lt_of_le_of_ne both.1 both.2

theorem ContinuationPolicyNode.identity_injective : Function.Injective ContinuationPolicyNode.identity := by
  intro a b same
  have pair : (a.queue.val, a.jobType.val) = (b.queue.val, b.jobType.val) := toLex_inj.mp same
  obtain ⟨queue, name⟩ := Prod.mk.inj pair
  cases a
  cases b
  congr
  · exact Subtype.ext name
  · exact Subtype.ext queue

theorem Ascending.nodup (ascending : Ascending identity l) : l.Nodup := by
  refine List.Pairwise.imp (fun less same => ?_) ascending
  exact absurd (same ▸ less) (lt_irrefl _)

/-- The check of the order. -/
theorem isCanonical_iff : isCanonical nodes = true ↔ Ascending (·.identity) nodes := by
  simp only [isCanonical, Bool.and_eq_true, decide_eq_true_eq]
  constructor
  · rintro ⟨sorted, distinct⟩
    rw [sorted]
    exact canonicalOrder_ascending (distinct.map ContinuationPolicyNode.identity_injective)
  · intro ascending
    have distinct := ascending.nodup
    refine ⟨ascending.eq_of_mem ?_ fun a => ?_, distinct⟩
    · exact canonicalOrder_ascending (distinct.map ContinuationPolicyNode.identity_injective)
    · exact (canonicalOrder_perm _ nodes).mem_iff.symm

theorem mem_sortedQueues {queues : List QueueName} {q : QueueName} : q ∈ sortedQueues queues ↔ q ∈ queues := by
  simp [sortedQueues]

theorem sortedQueues_ascending (queues : List QueueName) :
    (sortedQueues queues).Pairwise fun a b => a.val < b.val := by
  have : Std.Total fun a b : QueueName => a.val ≤ b.val := ⟨fun a b => le_total a.val b.val⟩
  have : IsTrans QueueName fun a b : QueueName => a.val ≤ b.val := ⟨fun _ _ _ => le_trans⟩
  have sorted : (sortedQueues queues).Pairwise fun a b => a.val ≤ b.val := List.pairwise_insertionSort _ _
  have apart : (sortedQueues queues).Nodup := (List.perm_insertionSort _ _).nodup_iff.mpr (List.nodup_dedup queues)
  exact (sorted.and apart).imp fun both => lt_of_le_of_ne both.1 fun same => both.2 (Subtype.ext same)

/-- The sorted queues are determined by their members. -/
theorem eq_of_mem_queues {a b : List QueueName} (first : a.Pairwise fun a b => a.val < b.val)
    (second : b.Pairwise fun a b => a.val < b.val) (same : ∀ q, q ∈ a ↔ q ∈ b) : a = b := by
  have : Std.Antisymm fun a b : QueueName => a.val < b.val := ⟨fun _ _ less more => absurd more less.asymm⟩
  have : Std.Irrefl fun a b : QueueName => a.val < b.val := ⟨fun _ => lt_irrefl _⟩
  exact List.Pairwise.eq_of_mem_iff first second same

end Order

section Spec

variable {r : TaskRegistry} {roots : List Task} {t : Task} {sha256 : String → String} {p p' : CompiledContinuationPolicy}

/-- The entry of a parent: its revision, and the targets of its member edges. -/
structure Pins (r : TaskRegistry) (t : Task) (e : ContinuationPolicyParent) : Prop where
  node : e.toContinuationPolicyNode = t.node
  revision : ∃ d ∈ t.followupTargets, d.workflowMember = true ∧ d.continuationRevision = some e.revision
  ascending : Ascending (·.identity) e.targets
  targets : ∀ n, n ∈ e.targets ↔ ∃ child, r.MemberEdge t child ∧ n = child.node

/-- The policy of what the roots reach. -/
structure Describes (r : TaskRegistry) (sha256 : String → String) (roots : List Task) (p : CompiledContinuationPolicy) :
    Prop where
  rootsAscending : Ascending (·.identity) p.manifest.roots
  rootNodes : ∀ n, n ∈ p.manifest.roots ↔ ∃ t ∈ roots, n = t.node
  parentsAscending : Ascending (·.identity) p.manifest.parents
  parents : ∀ e, e ∈ p.manifest.parents ↔ ∃ t, r.Reached roots t ∧ Pins r t e
  bytes : p.canonicalBytes = p.manifest.bytes
  hash : p.continuationPolicyHash = sha256 p.manifest.bytes
  queuesAscending : p.reachableQueues.Pairwise fun a b => a.val < b.val
  queues : ∀ q, q ∈ p.reachableQueues ↔ ∃ t, r.Reached roots t ∧ t.queue = q

/-- At most so many queues are reached as a policy may have. -/
def FewQueues (r : TaskRegistry) (roots : List Task) : Prop :=
  ∃ queues : List QueueName, queues.length ≤ maxContinuationPolicyQueues ∧ ∀ t, r.Reached roots t → t.queue ∈ queues

/-- There is one policy. -/
theorem Describes.unique (first : Describes r sha256 roots p) (second : Describes r sha256 roots p') : p = p' := by
  have roots := first.rootsAscending.eq_of_mem second.rootsAscending fun n => (first.rootNodes n).trans (second.rootNodes n).symm
  have parents := first.parentsAscending.eq_of_mem second.parentsAscending
    fun e => (first.parents e).trans (second.parents e).symm
  have manifest : p.manifest = p'.manifest := by
    cases same : p.manifest
    cases same' : p'.manifest
    rw [same, same'] at roots parents
    congr
  have queues := eq_of_mem_queues first.queuesAscending second.queuesAscending
    fun q => (first.queues q).trans (second.queues q).symm
  have bytes := first.bytes.trans ((congrArg _ manifest).trans second.bytes.symm)
  have hash := first.hash.trans ((congrArg (fun m => sha256 m.bytes) manifest).trans second.hash.symm)
  cases p
  cases p'
  congr

/-- A task with member edges has one entry. -/
theorem pin_eq_some (there : t ∈ r.canonical) (wired : r.Wired) {e : ContinuationPolicyParent} :
    pin r t = some e ↔ Pins r t e := by
  have registered : ∀ child ∈ r.memberChildren t, child ∈ r.canonical :=
    fun child edge => (TaskRegistry.mem_memberChildren.mp edge).registered
  have distinct := TaskRegistry.nodes_nodup registered (wired.memberChildren_nodup there)
  have ascending : Ascending (·.identity) (canonicalOrder (·.identity) ((r.memberChildren t).map Task.node)) :=
    canonicalOrder_ascending (distinct.map ContinuationPolicyNode.identity_injective)
  have targets (n : ContinuationPolicyNode) : n ∈ canonicalOrder (·.identity) ((r.memberChildren t).map Task.node) ↔
      ∃ child, r.MemberEdge t child ∧ n = child.node := by
    rw [(canonicalOrder_perm _ _).mem_iff]
    simp only [List.mem_map, TaskRegistry.mem_memberChildren, eq_comm]
  simp only [pin, Option.map_eq_some_iff]
  constructor
  · rintro ⟨revision, own, rfl⟩
    obtain ⟨d, head, revised⟩ := Option.bind_eq_some_iff.mp own
    obtain ⟨declared, joins⟩ := List.mem_filter.mp (List.mem_of_mem_head? head)
    exact ⟨rfl, ⟨d, declared, joins, revised⟩, ascending, targets⟩
  · rintro ⟨node, ⟨d, declared, joins, revised⟩, sorted, edges⟩
    have own := (memberTarget_revision (List.mem_filter.mpr ⟨declared, joins⟩)).2.symm.trans revised
    refine ⟨e.revision, own, ?_⟩
    have same := ascending.eq_of_mem sorted fun n => (targets n).trans (edges n).symm
    rw [same, ← node]

end Spec

section Compile

variable {r : TaskRegistry} {refs : List TaskRef} {roots : List Task} {t : Task} {sha256 : String → String}

theorem TaskRegistry.require_all (resolved : refs.mapM r.require = .ok roots) : ∀ t ∈ roots, t ∈ r.canonical := by
  intro t there
  obtain ⟨ref, -, found⟩ := forall₂_right (mapM_eq_ok.mp resolved) there
  exact require_mem found

/-- The tasks that the compiler visits. -/
def visited (r : TaskRegistry) (roots : List Task) : List Task :=
  drain Task.name r.memberChildren (rounds r roots) roots.reverse []

/-- The policy of what was visited. -/
def policyOf (r : TaskRegistry) (sha256 : String → String) (roots : List Task) : CompiledContinuationPolicy :=
  let w := collect r roots (visited r roots)
  let manifest : ContinuationPolicyManifest :=
    ⟨(canonicalOrder (·.node.identity) roots).map Task.node, canonicalOrder (·.identity) w.parents⟩
  ⟨manifest, manifest.bytes, sha256 manifest.bytes, sortedQueues w.queues⟩

theorem mem_visited (registered : ∀ t ∈ roots, t ∈ r.canonical) : t ∈ visited r roots ↔ r.Reached roots t := by
  have edges (parent : Task) : (r.memberChildren parent).length ≤ parent.followupTargets.length :=
    (List.length_filterMap_le _ _).trans (List.length_filter_le _ _)
  have owes : owed Task.name r.memberChildren r.canonical [] ≤ (r.canonical.map fun t => t.followupTargets.length).sum :=
    List.sum_le_sum fun parent _ => by simpa using edges parent
  have fuel : roots.reverse.length + owed Task.name r.memberChildren r.canonical [] ≤ rounds r roots := by
    rw [List.length_reverse]
    exact Nat.add_le_add_left owes _
  refine (mem_drain r.names_nodup (fun parent _ child edge => (TaskRegistry.mem_memberChildren.mp edge).registered)
    (fun t there => registered t (List.mem_reverse.mp there)) fuel).trans ?_
  rw [← TaskRegistry.leads_iff_reached]
  simp only [Leads, List.mem_reverse]

theorem visited_nodup : ((visited r roots).map Task.name).Nodup := drain_nodup List.nodup_nil

/-- Elements that keep a value of theirs keep its order. -/
theorem map_filterMap_sublist {α β γ : Type} {f : α → Option β} {g : β → γ} {h : α → γ} (kept : ∀ a b, f a = some b → g b = h a)
    (l : List α) : ((l.filterMap f).map g).Sublist (l.map h) := by
  induction l with
  | nil => exact .slnil
  | cons a l ih =>
    cases found : f a with
    | none => simpa [found] using ih.cons (h a)
    | some b => simpa [found, kept a b found] using ih

theorem pin_node {e : ContinuationPolicyParent} (own : pin r t = some e) : e.toContinuationPolicyNode = t.node := by
  obtain ⟨_, -, rfl⟩ := Option.map_eq_some_iff.mp own
  rfl

/-- The policy of what was visited describes what is reached. -/
theorem policyOf_describes (wired : r.Wired) (registered : ∀ t ∈ roots, t ∈ r.canonical) (distinct : roots.Nodup) :
    Describes r sha256 roots (policyOf r sha256 roots) := by
  have member (t : Task) (there : t ∈ visited r roots) : t ∈ r.canonical :=
    ((mem_visited registered).mp there).registered registered
  have entries (e : ContinuationPolicyParent) : e ∈ (visited r roots).filterMap (pin r) ↔ ∃ t, r.Reached roots t ∧ Pins r t e := by
    rw [List.mem_filterMap]
    refine exists_congr fun t => ?_
    rw [← mem_visited registered]
    exact and_congr_right fun there => pin_eq_some (member t there) wired
  have nodes : (((visited r roots).filterMap (pin r)).map fun e => e.identity).Nodup := by
    have fewer := map_filterMap_sublist (fun t e (own : pin r t = some e) => pin_node own) (visited r roots)
    have apart := (TaskRegistry.nodes_nodup member visited_nodup.of_map).sublist fewer
    simpa only [List.map_map, Function.comp_def] using apart.map ContinuationPolicyNode.identity_injective
  refine ⟨?_, fun n => ?_, canonicalOrder_ascending nodes, fun e => ?_, rfl, rfl, sortedQueues_ascending _, fun q => ?_⟩
  · refine List.pairwise_map.mpr (canonicalOrder_ascending ?_)
    simpa only [List.map_map, Function.comp_def] using
      (TaskRegistry.nodes_nodup registered distinct).map ContinuationPolicyNode.identity_injective
  · simp only [policyOf, List.mem_map, (canonicalOrder_perm _ roots).mem_iff, eq_comm]
  · rw [← entries e]
    exact (canonicalOrder_perm _ _).mem_iff
  · rw [policyOf, mem_sortedQueues]
    simp only [collect, List.mem_append, List.mem_map, List.mem_flatMap, TaskRegistry.mem_memberChildren, mem_visited registered]
    constructor
    · rintro (⟨t, root, rfl⟩ | ⟨t, ⟨root, start, path⟩, child, edge, rfl⟩)
      · exact ⟨t, ⟨t, root, .refl⟩, rfl⟩
      · exact ⟨child, ⟨root, start, path.tail edge⟩, rfl⟩
    · rintro ⟨t, ⟨root, start, path⟩, rfl⟩
      cases path with
      | refl => exact .inl ⟨t, start, rfl⟩
      | tail path edge => exact .inr ⟨_, ⟨root, start, path⟩, t, edge, rfl⟩

/-- A compilation ends with the policy of what was visited, unless that has too many queues. -/
theorem compile_eq (validated : r.validateFollowupGraph = .ok ()) (resolved : refs.mapM r.require = .ok roots)
    (some : roots ≠ []) (distinct : roots.Nodup) :
    compileContinuationPolicy r sha256 refs =
      if (policyOf r sha256 roots).reachableQueues.length ≤ maxContinuationPolicyQueues then .ok (policyOf r sha256 roots)
      else .error (.config "continuation policy reaches more than 32 queues") := by
  have wired := TaskRegistry.wired_of_validated validated
  have registered := TaskRegistry.require_all resolved
  have walks : walk r (rounds r roots) roots.reverse ⟨[], roots.map (·.queue), []⟩ =
      .ok (collect r roots (visited r roots)) := by
    rw [show (⟨[], roots.map (·.queue), []⟩ : Walk) = collect r roots [] by simp [collect]]
    exact walk_eq wired fun t there => registered t (List.mem_reverse.mp there)
  have distinct := TaskRegistry.nodes_nodup registered distinct
  simp only [compileContinuationPolicy, validated, resolved, ensure, bind, Except.bind, if_pos some, if_pos distinct, walks]
  change _ = if (sortedQueues (collect r roots (visited r roots)).queues).length ≤ maxContinuationPolicyQueues then _ else _
  split_ifs <;> rfl

theorem fewQueues_iff (wired : r.Wired) (registered : ∀ t ∈ roots, t ∈ r.canonical) (distinct : roots.Nodup) :
    (policyOf r sha256 roots).reachableQueues.length ≤ maxContinuationPolicyQueues ↔ FewQueues r roots := by
  have describes : Describes r sha256 roots (policyOf r sha256 roots) := policyOf_describes wired registered distinct
  obtain ⟨-, -, -, -, -, -, ascending, queues⟩ := describes
  constructor
  · exact fun few => ⟨_, few, fun t reached => (queues _).mpr ⟨t, reached, rfl⟩⟩
  · rintro ⟨all, few, covers⟩
    have nodup : (policyOf r sha256 roots).reachableQueues.Nodup :=
      ascending.imp fun less same => absurd (same ▸ less) (lt_irrefl _)
    refine (List.Subperm.length_le (List.subperm_of_subset nodup fun q there => ?_)).trans few
    obtain ⟨t, reached, rfl⟩ := (queues q).mp there
    exact covers t reached

end Compile

section Alike

variable {r r' : TaskRegistry} {t t' child : Task} {roots roots' : List Task} {sha256 : String → String}
  {p : CompiledContinuationPolicy}

/-- The same task with its aliases and its edges declared in any order. -/
structure Task.Alike (t t' : Task) : Prop where
  name : t'.name = t.name
  queue : t'.queue = t.queue
  aliases : t'.aliases.Perm t.aliases
  targets : t'.followupTargets.Perm t.followupTargets

/-- The same tasks, in any order. -/
structure AlikeTasks (l l' : List Task) : Prop where
  forth : ∀ t ∈ l, ∃ t' ∈ l', t.Alike t'
  back : ∀ t' ∈ l', ∃ t ∈ l, t'.Alike t

theorem Task.Alike.symm (alike : t.Alike t') : t'.Alike t :=
  ⟨alike.name.symm, alike.queue.symm, alike.aliases.symm, alike.targets.symm⟩

theorem AlikeTasks.symm {l l' : List Task} (alike : AlikeTasks l l') : AlikeTasks l' l := ⟨alike.back, alike.forth⟩

theorem Task.Alike.node (alike : t.Alike t') : t'.node = t.node := by
  rw [Task.node, Task.node, alike.name, alike.queue]

theorem Task.Alike.keys (alike : t.Alike t') {key : WireName} : key ∈ t'.keys ↔ key ∈ t.keys := by
  rw [Task.keys, Task.keys, List.mem_cons, List.mem_cons, alike.name, alike.aliases.mem_iff]

theorem AlikeTasks.resolve (alike : AlikeTasks r.canonical r'.canonical) {name : String} (found : r.resolve name = some t) :
    ∃ t', r'.resolve name = some t' ∧ t.Alike t' := by
  obtain ⟨there, key, own, same⟩ := TaskRegistry.resolve_eq_some.mp found
  obtain ⟨t', there', like⟩ := alike.forth t there
  exact ⟨t', TaskRegistry.resolve_eq_some.mpr ⟨there', key, like.keys.mpr own, same⟩, like⟩

theorem AlikeTasks.edge (alike : AlikeTasks r.canonical r'.canonical) (like : t.Alike t') (edge : r.MemberEdge t child) :
    ∃ child', r'.MemberEdge t' child' ∧ child.Alike child' := by
  obtain ⟨d, declared, joins, found⟩ := edge
  obtain ⟨child', found', like'⟩ := alike.resolve found
  exact ⟨child', ⟨d, like.targets.mem_iff.mpr declared, joins, found'⟩, like'⟩

theorem AlikeTasks.reached (alike : AlikeTasks r.canonical r'.canonical) (starts : AlikeTasks roots roots')
    (reached : r.Reached roots t) : ∃ t', r'.Reached roots' t' ∧ t.Alike t' := by
  obtain ⟨root, start, path⟩ := reached
  obtain ⟨root', start', like⟩ := starts.forth root start
  induction path with
  | refl => exact ⟨root', ⟨root', start', .refl⟩, like⟩
  | tail _ edge ih =>
    obtain ⟨parent', ⟨root', start', path'⟩, like⟩ := ih
    obtain ⟨child', edge', like'⟩ := alike.edge like edge
    exact ⟨child', ⟨root', start', path'.tail edge'⟩, like'⟩

theorem AlikeTasks.pins (alike : AlikeTasks r.canonical r'.canonical) (like : t.Alike t') {e : ContinuationPolicyParent}
    (pins : Pins r t e) : Pins r' t' e := by
  obtain ⟨node, ⟨d, declared, joins, revised⟩, ascending, targets⟩ := pins
  refine ⟨node.trans like.node.symm, ⟨d, like.targets.mem_iff.mpr declared, joins, revised⟩, ascending, fun n => ?_⟩
  rw [targets n]
  constructor
  · rintro ⟨child, edge, rfl⟩
    obtain ⟨child', edge', like'⟩ := alike.edge like edge
    exact ⟨child', edge', like'.node.symm⟩
  · rintro ⟨child', edge', rfl⟩
    obtain ⟨child, edge, like'⟩ := alike.symm.edge like.symm edge'
    exact ⟨child, edge, like'.node.symm⟩

/-- A policy that describes one registry describes one alike. -/
theorem AlikeTasks.describes (alike : AlikeTasks r.canonical r'.canonical) (starts : AlikeTasks roots roots')
    (describes : Describes r sha256 roots p) : Describes r' sha256 roots' p := by
  obtain ⟨rootsAscending, rootNodes, parentsAscending, parents, bytes, hash, queuesAscending, queues⟩ := describes
  refine ⟨rootsAscending, fun n => ?_, parentsAscending, fun e => ?_, bytes, hash, queuesAscending, fun q => ?_⟩
  · rw [rootNodes n]
    constructor
    · rintro ⟨t, there, rfl⟩
      obtain ⟨t', there', like⟩ := starts.forth t there
      exact ⟨t', there', like.node.symm⟩
    · rintro ⟨t', there', rfl⟩
      obtain ⟨t, there, like⟩ := starts.back t' there'
      exact ⟨t, there, like.node.symm⟩
  · rw [parents e]
    constructor
    · rintro ⟨t, reached, pins⟩
      obtain ⟨t', reached', like⟩ := alike.reached starts reached
      exact ⟨t', reached', alike.pins like pins⟩
    · rintro ⟨t', reached', pins⟩
      obtain ⟨t, reached, like⟩ := alike.symm.reached starts.symm reached'
      exact ⟨t, reached, alike.symm.pins like pins⟩
  · rw [queues q]
    constructor
    · rintro ⟨t, reached, rfl⟩
      obtain ⟨t', reached', like⟩ := alike.reached starts reached
      exact ⟨t', reached', like.queue⟩
    · rintro ⟨t', reached', rfl⟩
      obtain ⟨t, reached, like⟩ := alike.symm.reached starts.symm reached'
      exact ⟨t, reached, like.queue⟩

theorem AlikeTasks.wired (alike : AlikeTasks r.canonical r'.canonical) (wired : r.Wired) : r'.Wired := by
  refine ⟨fun parent' there' d declared => ?_, fun parent' there' => ?_⟩
  · obtain ⟨parent, there, like⟩ := alike.back parent' there'
    obtain ⟨child, found, queue⟩ := wired.child parent there d (like.targets.mem_iff.mpr declared)
    obtain ⟨child', found', like'⟩ := alike.resolve found
    exact ⟨child', found', like'.queue.trans queue⟩
  · obtain ⟨parent, there, like⟩ := alike.back parent' there'
    -- the names of the children are those of the other registry, in another order
    have names (l : List FollowupTarget) : (l.filterMap fun d => r'.resolve d.jobType).map Task.name =
        (l.filterMap fun d => r.resolve d.jobType).map Task.name := by
      rw [List.map_filterMap, List.map_filterMap]
      refine List.filterMap_congr fun d _ => ?_
      cases found : r.resolve d.jobType with
      | some child =>
        obtain ⟨child', found', like'⟩ := alike.resolve found
        rw [found', Option.map_some, Option.map_some, like'.name]
      | none =>
        cases found' : r'.resolve d.jobType with
        | none => rfl
        | some child' =>
          obtain ⟨child, there, -⟩ := alike.symm.resolve found'
          cases found.symm.trans there
    have distinct : ((parent.followupTargets.filterMap fun d => r.resolve d.jobType).map Task.name).Nodup := by
      refine (wired.distinct parent there).map_on fun a first b second same => ?_
      obtain ⟨_, _, found⟩ := List.mem_filterMap.mp first
      obtain ⟨_, _, found'⟩ := List.mem_filterMap.mp second
      exact TaskRegistry.eq_of_name (TaskRegistry.resolve_eq_some.mp found).1 (TaskRegistry.resolve_eq_some.mp found').1 same
    rw [← names] at distinct
    exact (like.targets.filterMap _).nodup_iff.mp distinct.of_map

end Alike

section Accept

variable {r : TaskRegistry} {roots : List Task} {t parent : Task} {sha256 : String → String} {p : CompiledContinuationPolicy}
  {n : ContinuationPolicyNode} {e : ContinuationPolicyParent}

theorem requirePolicyNode_eq_ok : requirePolicyNode r n = .ok t ↔ t ∈ r.canonical ∧ n = t.node := by
  unfold requirePolicyNode
  constructor
  · intro run
    split at run
    · cases run
    · rename_i found
      cases run
      obtain ⟨found, same⟩ := Option.filter_eq_some_iff.mp found
      obtain ⟨name, queue⟩ := of_decide_eq_true same
      exact ⟨(TaskRegistry.resolve_eq_some.mp found).1, by rw [Task.node, name, queue]⟩
  · rintro ⟨there, rfl⟩
    have found : (r.resolve t.node.jobType).filter (fun task => task.name = t.node.jobType ∧ task.queue = t.node.queue) =
        some t := Option.filter_eq_some_iff.mpr ⟨TaskRegistry.resolve_name there, decide_eq_true ⟨rfl, rfl⟩⟩
    rw [found]

/-- The live edges of a registered task hold the nodes of its member children. -/
theorem liveMemberEdges_ok (wired : r.Wired) (there : t ∈ r.canonical) :
    ∃ live, liveMemberEdges r t = .ok live ∧ ∀ child, r.MemberEdge t child → child.node ∈ live := by
  let edge (d : FollowupTarget) : Option (Bool × ContinuationPolicyNode) :=
    (r.resolve d.jobType).map fun child => (d.workflowMember, ⟨child.name, d.queue⟩)
  have found : List.Forall₂ (fun d e => edge d = some e) t.followupTargets (t.followupTargets.filterMap edge) := by
    refine forall₂_filterMap fun d declared => ?_
    obtain ⟨child, found, -⟩ := wired.child t there d declared
    exact ⟨_, congrArg (Option.map _) found⟩
  have edges := mapM_eq_ok.mpr (found.imp fun d e (own : edge d = some e) => show (do
      let child ← r.require (.name d.jobType)
      .ok (d.workflowMember, (⟨child.name, d.queue⟩ : ContinuationPolicyNode))) = .ok e from by
    obtain ⟨child, found, rfl⟩ := Option.map_eq_some_iff.mp own
    exact seq_eq_ok.mpr ⟨child, TaskRegistry.require_name_eq_ok.mpr found, rfl⟩)
  refine ⟨_, seq_eq_ok.mpr ⟨_, edges, rfl⟩, ?_⟩
  rintro child ⟨d, declared, joins, found⟩
  obtain ⟨child', found', queue⟩ := wired.child t there d declared
  cases found.symm.trans found'
  refine List.mem_map.mpr ⟨(d.workflowMember, ⟨child.name, d.queue⟩), List.mem_filter.mpr ⟨?_, joins⟩, ?_⟩
  · exact List.mem_filterMap.mpr ⟨d, declared, congrArg (Option.map _) found⟩
  · rw [Task.node, queue]

/-- A parent with a member edge has an entry. -/
theorem exists_pins {child : Task} (wired : r.Wired) (there : t ∈ r.canonical) (edge : r.MemberEdge t child) :
    ∃ e, Pins r t e := by
  obtain ⟨d, declared, joins, -⟩ := edge
  obtain ⟨revised, own⟩ := memberTarget_revision (List.mem_filter.mpr ⟨declared, joins⟩)
  obtain ⟨revision, some⟩ := Option.ne_none_iff_exists'.mp revised
  exact ⟨_, (pin_eq_some there wired).mp (congrArg (Option.map _) (own.symm.trans some))⟩

/-- The entry of a reached parent is accepted. -/
theorem validateParent_ok (wired : r.Wired) (there : t ∈ r.canonical) (pins : Pins r t e) : validateParent r e = .ok () := by
  obtain ⟨live, edges, held⟩ := liveMemberEdges_ok wired there
  have found : requirePolicyNode r e.toContinuationPolicyNode = .ok t := requirePolicyNode_eq_ok.mpr ⟨there, pins.node⟩
  simp only [validateParent, seq_eq_ok, ensure_eq_ok, forM_eq_ok]
  refine ⟨t, found, (), isCanonical_iff.mpr pins.ascending, live, edges, fun n target => ?_⟩
  obtain ⟨child, edge, rfl⟩ := (pins.targets n).mp target
  exact ⟨child, requirePolicyNode_eq_ok.mpr ⟨edge.registered, rfl⟩, held child edge⟩

/-- A policy that describes a registry is accepted by it. -/
theorem Describes.accepted (describes : Describes r sha256 roots p) (wired : r.Wired)
    (registered : ∀ t ∈ roots, t ∈ r.canonical) (digests : ∀ s, isSha256 (sha256 s) = true) :
    validateCompiledContinuationPolicy r sha256 p = .ok () := by
  obtain ⟨rootsAscending, rootNodes, parentsAscending, parents, bytes, hash, queuesAscending, queues⟩ := describes
  simp only [validateCompiledContinuationPolicy, seq_eq_ok, ensure_eq_ok, forM_eq_ok, exists_const]
  refine ⟨bytes, ⟨hash ▸ digests _, hash.symm⟩, isCanonical_iff.mpr rootsAscending,
    isCanonical_iff.mpr (List.pairwise_map.mpr parentsAscending), fun n there => ?_, fun e there => ?_, ?_⟩
  · obtain ⟨t, root, rfl⟩ := (rootNodes n).mp there
    exact ⟨t, requirePolicyNode_eq_ok.mpr ⟨registered t root, rfl⟩, trivial⟩
  · obtain ⟨t, reached, pins⟩ := (parents e).mp there
    exact validateParent_ok wired (reached.registered registered) pins
  · refine eq_of_mem_queues queuesAscending (sortedQueues_ascending _) fun q => ?_
    rw [queues q, mem_sortedQueues]
    simp only [List.mem_append, List.mem_map, List.mem_flatMap]
    constructor
    · rintro ⟨t, ⟨root, start, path⟩, rfl⟩
      cases path with
      | refl => exact .inl ⟨t.node, (rootNodes _).mpr ⟨t, start, rfl⟩, rfl⟩
      | @tail parent _ path edge =>
        have reached : r.Reached roots parent := ⟨root, start, path⟩
        obtain ⟨e, pins⟩ := exists_pins wired (reached.registered registered) edge
        exact .inr ⟨e, (parents e).mpr ⟨parent, reached, pins⟩, t.node, (pins.targets _).mpr ⟨t, edge, rfl⟩, rfl⟩
    · rintro (⟨n, there, rfl⟩ | ⟨e, there, n, target, rfl⟩)
      · obtain ⟨t, start, rfl⟩ := (rootNodes n).mp there
        exact ⟨t, ⟨t, start, .refl⟩, rfl⟩
      · obtain ⟨parent, ⟨root, start, path⟩, pins⟩ := (parents e).mp there
        obtain ⟨child, edge, rfl⟩ := (pins.targets n).mp target
        exact ⟨child, ⟨root, start, path.tail edge⟩, rfl⟩

/-- The first entry under a node is the only one. -/
theorem find?_parent {parents : List ContinuationPolicyParent} (ascending : Ascending (·.identity) parents) (there : e ∈ parents) :
    parents.find? (·.toContinuationPolicyNode = e.toContinuationPolicyNode) = some e := by
  cases found : parents.find? fun e' => decide (e'.toContinuationPolicyNode = e.toContinuationPolicyNode) with
  | none => exact absurd (decide_eq_true rfl) (List.find?_eq_none.mp found e there)
  | some e' =>
    have same : e'.toContinuationPolicyNode = e.toContinuationPolicyNode := of_decide_eq_true (List.find?_some found :)
    have distinct : (parents.map fun e => e.identity).Nodup :=
      List.pairwise_map.mpr (ascending.imp fun less => ne_of_lt less)
    refine congrArg some (List.inj_on_of_nodup_map distinct (List.mem_of_find?_eq_some found) there ?_)
    rw [same]

/-- The followups that a policy lets through. -/
theorem enforce_eq_ok {π : Type} {followups result : List (Followup π)}
    (ascending : Ascending (·.identity) p.manifest.parents) :
    enforceContinuationPolicy parent followups (some p) = .ok result ↔ result = followups ∧
      ∀ f ∈ followups, f.workflowMember = true → ∃ e ∈ p.manifest.parents, e.toContinuationPolicyNode = parent.node ∧
        ⟨f.jobType, f.queue.getD parent.queue⟩ ∈ e.targets := by
  have pinned (n : ContinuationPolicyNode) :
      n ∈ ((p.manifest.parents.find? (·.toContinuationPolicyNode = parent.node)).map (·.targets)).getD [] ↔
        ∃ e ∈ p.manifest.parents, e.toContinuationPolicyNode = parent.node ∧ n ∈ e.targets := by
    constructor
    · cases found : p.manifest.parents.find? fun e => decide (e.toContinuationPolicyNode = parent.node) with
      | none => exact fun none => absurd none List.not_mem_nil
      | some e =>
        exact fun target => ⟨e, List.mem_of_find?_eq_some found, of_decide_eq_true (List.find?_some found :), target⟩
    · rintro ⟨e, there, node, target⟩
      rw [← node, find?_parent ascending there]
      exact target
  unfold enforceContinuationPolicy
  by_cases plain : followups.filter (·.workflowMember) = []
  · rw [if_pos plain, Except.ok.injEq]
    have none (f : Followup π) (there : f ∈ followups) : ¬f.workflowMember = true := List.filter_eq_nil_iff.mp plain f there
    exact ⟨fun same => ⟨same.symm, fun f there joins => absurd joins (none f there)⟩, fun both => both.1.symm⟩
  · rw [if_neg plain]
    simp only [seq_eq_ok, forM_eq_ok, ensure_eq_ok, List.mem_filter, pinned, exists_const, Except.ok.injEq]
    constructor
    · rintro ⟨all, same⟩
      exact ⟨same.symm, fun f there joins => all f ⟨there, joins⟩⟩
    · rintro ⟨same, all⟩
      exact ⟨fun f there => all f there.1 there.2, same.symm⟩

end Accept

section Normalized

variable {π : Type} {r : TaskRegistry} {roots : List Task} {parent : Task} {sha256 : String → String}
  {p : CompiledContinuationPolicy} {validatePayload : Task → π → Option π}

/-- The collected declarations are those of the parent. -/
theorem mem_declarations {targets : List FollowupTarget}
    {declared result : List ((QueueName × WireName) × FollowupTarget)}
    (run : r.declarations parent targets declared = .ok result) {entry : (QueueName × WireName) × FollowupTarget}
    (there : entry ∈ result) : entry ∈ declared ∨ entry.2 ∈ targets ∧
      ∃ child, r.resolve entry.2.jobType = some child ∧ entry.1 = (entry.2.queue, child.name) := by
  induction targets generalizing declared with
  | nil =>
    cases run
    exact .inl there
  | cons item rest ih =>
    rw [TaskRegistry.declarations] at run
    cases found : r.resolve item.jobType with
    | none =>
      rw [found] at run
      cases run
    | some target =>
      rw [found] at run
      simp only [seq_eq_ok, ensure_eq_ok] at run
      obtain ⟨_, _, run⟩ := run
      obtain old | ⟨later, child⟩ := ih run
      · obtain old | self := List.mem_append.mp old
        · exact .inl old
        · cases List.mem_singleton.mp self
          exact .inr ⟨List.mem_cons_self, target, found, rfl⟩
      · exact .inr ⟨List.mem_cons_of_mem item later, child⟩

/-- A normalized followup that joins the workflow follows a member edge. -/
theorem normalizeFollowup_edge {asked given : Followup π}
    {declared : List ((QueueName × WireName) × FollowupTarget)}
    (collected : r.declarations parent parent.followupTargets [] = .ok declared)
    (run : r.normalizeFollowup validatePayload parent declared asked = .ok given) (joins : given.workflowMember = true) :
    ∃ child, r.MemberEdge parent child ∧ (⟨given.jobType, given.queue.getD parent.queue⟩ : ContinuationPolicyNode) = child.node := by
  unfold TaskRegistry.normalizeFollowup at run
  split at run
  · cases run
  rename_i target resolved
  dsimp only at run
  split at run
  · cases run
  rename_i key declaration found
  obtain ⟨found, queue⟩ := Option.filter_eq_some_iff.mp found
  simp only [seq_eq_ok, ensure_eq_ok] at run
  obtain ⟨_, enabled, run⟩ := run
  split at run
  · cases run
  cases run
  obtain none | ⟨own, child, there, identity⟩ := mem_declarations collected (List.mem_of_find?_eq_some found)
  · exact absurd none List.not_mem_nil
  have named : key = (asked.queue.getD parent.queue, target.name) := of_decide_eq_true (List.find?_some found :)
  have name : child.name = target.name := congrArg Prod.snd (identity.symm.trans named)
  have same : child = target := TaskRegistry.eq_of_name (TaskRegistry.resolve_eq_some.mp there).1
    (TaskRegistry.resolve_eq_some.mp resolved).1 name
  refine ⟨target, ⟨declaration, own, enabled joins, same ▸ there⟩, ?_⟩
  rw [Task.node, of_decide_eq_true queue]
  congr 1
  dsimp only
  split_ifs with home
  · exact home.symm
  · rfl

/-- What a handler of a reached parent asks for passes the policy of its registry. -/
theorem Describes.lets_normalized (describes : Describes r sha256 roots p) (wired : r.Wired)
    (registered : ∀ t ∈ roots, t ∈ r.canonical) (reached : r.Reached roots parent) {followups normalized : List (Followup π)}
    (run : r.normalizeFollowups validatePayload parent followups = .ok normalized) :
    enforceContinuationPolicy parent normalized (some p) = .ok normalized := by
  obtain ⟨declared, collected, run⟩ := seq_eq_ok.mp run
  refine (enforce_eq_ok describes.parentsAscending).mpr ⟨rfl, fun given there joins => ?_⟩
  obtain ⟨asked, -, run⟩ := forall₂_right (mapM_eq_ok.mp run) there
  have own := reached.registered registered
  obtain ⟨child, edge, node⟩ := normalizeFollowup_edge collected run joins
  obtain ⟨e, pins⟩ := exists_pins wired own edge
  exact ⟨e, (describes.parents e).mpr ⟨parent, reached, pins⟩, pins.node, (pins.targets _).mpr ⟨child, edge, node⟩⟩

end Normalized

/-- The checks of the declarations pass in a wired registry. -/
theorem checkTargets_of_wired {r : TaskRegistry} {parent : Task} {targets : List FollowupTarget}
    {identities : List (QueueName × WireName)}
    (children : ∀ d ∈ targets, ∃ child, r.resolve d.jobType = some child ∧ child.queue = d.queue)
    (distinct : (targets.filterMap fun d => r.resolve d.jobType).Nodup)
    (apart : ∀ child ∈ targets.filterMap fun d => r.resolve d.jobType, (child.queue, child.name) ∉ identities) :
    r.checkTargets parent targets identities = .ok () := by
  induction targets generalizing identities with
  | nil => rfl
  | cons d targets ih =>
    obtain ⟨⟨child, found, queue⟩, rest⟩ := List.forall_mem_cons.mp children
    rw [List.filterMap_cons, found] at distinct apart
    obtain ⟨unused, distinct⟩ := List.nodup_cons.mp distinct
    obtain ⟨fresh, apart⟩ := List.forall_mem_cons.mp apart
    rw [TaskRegistry.checkTargets, found]
    simp only [seq_eq_ok, ensure_eq_ok]
    refine ⟨(), queue, (), queue ▸ fresh, ih rest distinct fun other later old => ?_⟩
    obtain old | self := List.mem_append.mp old
    · exact apart other later old
    · obtain ⟨_, _, found'⟩ := List.mem_filterMap.mp later
      have name : other.name = child.name := congrArg Prod.snd (List.mem_singleton.mp self)
      have same := TaskRegistry.eq_of_name (TaskRegistry.resolve_eq_some.mp found').1
        (TaskRegistry.resolve_eq_some.mp found).1 name
      exact unused (same ▸ later)

theorem validated_iff_wired {r : TaskRegistry} : r.validateFollowupGraph = .ok () ↔ r.Wired :=
  ⟨TaskRegistry.wired_of_validated, fun wired => forM_eq_ok.mpr fun parent there =>
    checkTargets_of_wired (wired.child parent there) (wired.distinct parent there) fun _ _ => List.not_mem_nil⟩

/-- In a registry whose graph validates, roots that reach few queues compile to the one document of the member graph that
they reach; any order of registration, aliases, edges and roots gives the same document. The registry accepts it, and it
lets through the followups whose member edges it pins. No roots, or roots that reach more queues, are refused. -/
theorem policies_pin_reached {r : TaskRegistry} {sha256 : String → String} (digests : ∀ s, isSha256 (sha256 s) = true)
    (validated : r.validateFollowupGraph = .ok ()) {refs : List TaskRef} {roots : List Task}
    (resolved : refs.mapM r.require = .ok roots) (distinct : roots.Nodup) :
    (roots ≠ [] ∧ FewQueues r roots → ∃ p, compileContinuationPolicy r sha256 refs = .ok p ∧ Describes r sha256 roots p ∧
      (∀ (r' : TaskRegistry) (refs' : List TaskRef) (roots' : List Task), AlikeTasks r.canonical r'.canonical →
        refs'.mapM r'.require = .ok roots' → roots'.Nodup → AlikeTasks roots roots' →
        compileContinuationPolicy r' sha256 refs' = .ok p) ∧
      validateCompiledContinuationPolicy r sha256 p = .ok () ∧
      ∀ (π : Type) (parent : Task) (followups result : List (Followup π)),
        enforceContinuationPolicy parent followups (some p) = .ok result ↔ result = followups ∧
          ∀ f ∈ followups, f.workflowMember = true → ∃ e ∈ p.manifest.parents, e.toContinuationPolicyNode = parent.node ∧
            ⟨f.jobType, f.queue.getD parent.queue⟩ ∈ e.targets) ∧
    (¬(roots ≠ [] ∧ FewQueues r roots) → ∃ message, compileContinuationPolicy r sha256 refs = .error (.config message)) := by
  have wired := validated_iff_wired.mp validated
  have registered := TaskRegistry.require_all resolved
  constructor
  · rintro ⟨some, few⟩
    have describes : Describes r sha256 roots (policyOf r sha256 roots) := policyOf_describes wired registered distinct
    refine ⟨policyOf r sha256 roots, ?_, describes, fun r' refs' roots' alike resolved' distinct' starts => ?_,
      describes.accepted wired registered digests, fun π parent followups result => enforce_eq_ok describes.parentsAscending⟩
    · rw [compile_eq validated resolved some distinct, if_pos ((fewQueues_iff wired registered distinct).mpr few)]
    · have wired' := alike.wired wired
      have registered' := TaskRegistry.require_all resolved'
      have some' : roots' ≠ [] := fun none => by
        obtain ⟨t, there⟩ := List.exists_mem_of_ne_nil roots some
        obtain ⟨t', there', -⟩ := starts.forth t there
        exact absurd there' (none ▸ List.not_mem_nil)
      have same : policyOf r' sha256 roots' = policyOf r sha256 roots :=
        (policyOf_describes wired' registered' distinct').unique (alike.describes starts describes)
      rw [compile_eq (validated_iff_wired.mpr wired') resolved' some' distinct', same,
        if_pos ((fewQueues_iff wired registered distinct).mpr few)]
  · intro refused
    by_cases some : roots ≠ []
    · have many : ¬FewQueues r roots := fun few => refused ⟨some, few⟩
      exact ⟨_, (compile_eq validated resolved some distinct).trans
        (if_neg (mt (fewQueues_iff wired registered distinct).mp many))⟩
    · refine ⟨"continuation policy requires at least one root task", ?_⟩
      simp only [compileContinuationPolicy, validated, resolved, ensure, if_neg some, bind, Except.bind]

/-- A leaf, and a task that continues with itself or with the leaf. -/
def leafTask : Task := ⟨0, ⟨"leaf", by decide +kernel⟩, ⟨"q", by decide +kernel⟩, [], [], by decide +kernel, by decide +kernel, nofun⟩

def loopTask : Task where
  object := 1
  name := ⟨"loop", by decide +kernel⟩
  queue := ⟨"p", by decide +kernel⟩
  aliases := [⟨"again", by decide +kernel⟩]
  followupTargets := [
    ⟨⟨"q", by decide +kernel⟩, ⟨"leaf", by decide +kernel⟩, true, some ⟨"1", by decide +kernel⟩, rfl⟩,
    ⟨⟨"p", by decide +kernel⟩, ⟨"again", by decide +kernel⟩, true, some ⟨"1", by decide +kernel⟩, rfl⟩]
  names := by decide +kernel
  targets := by decide +kernel
  revision := by decide +kernel

def loopRegistry : TaskRegistry := ⟨[leafTask, loopTask], by decide +kernel⟩

def zeros (_ : String) : String := String.ofList (List.replicate 64 '0')

theorem policies_pin_reached_loop : ∃ p, compileContinuationPolicy loopRegistry zeros [.name "again"] = .ok p ∧
    Describes loopRegistry zeros [loopTask] p ∧ validateCompiledContinuationPolicy loopRegistry zeros p = .ok () := by
  have registered : ∀ t ∈ [loopTask], t ∈ loopRegistry.canonical := by decide +kernel
  have few : FewQueues loopRegistry [loopTask] := by
    refine ⟨[leafTask.queue, loopTask.queue], by decide, fun t reached => ?_⟩
    obtain rfl | there := List.mem_cons.mp (reached.registered registered)
    · exact List.mem_cons_self
    · cases List.mem_singleton.mp there
      exact List.mem_cons_of_mem _ List.mem_cons_self
  have digests (s : String) : isSha256 (zeros s) = true :=
    (by decide +kernel : isSha256 (String.ofList (List.replicate 64 '0')) = true)
  have resolved : [.name "again"].mapM loopRegistry.require = .ok [loopTask] := by decide +kernel
  obtain ⟨p, compiled, describes, -, accepted, -⟩ := (policies_pin_reached digests (by decide +kernel) resolved
    (List.nodup_singleton loopTask)).1 ⟨List.cons_ne_nil _ _, few⟩
  exact ⟨p, compiled, describes, accepted⟩

section Crowd

/-- A name for every number. -/
def crowdName (n : Fin 33) : String := String.ofList (List.replicate (n + 1) 'q')

def crowdTask (n : Fin 33) : Task where
  object := n
  name := ⟨crowdName n, (by decide +kernel : ∀ n, isWireName (crowdName n) = true) n⟩
  queue := ⟨crowdName n, (by decide +kernel : ∀ n, isQueueName (crowdName n) = true) n⟩
  aliases := []
  followupTargets := []
  names := List.nodup_singleton _
  targets := List.nodup_nil
  revision := nofun

/-- As many queues as one more than a policy may have. -/
def crowd : TaskRegistry := ⟨(List.finRange 33).map crowdTask, by decide +kernel⟩

end Crowd

/-- A reached leaf is no parent of the policy, and there is no policy of no roots or of too many queues. -/
theorem policies_leave_leaves :
    ((∃ p, compileContinuationPolicy loopRegistry zeros [.name "leaf"] = .ok p ∧ p.manifest.parents = []) ∧
      loopRegistry.Reached [leafTask] leafTask) ∧
    compileContinuationPolicy loopRegistry zeros [] =
      .error (.config "continuation policy requires at least one root task") ∧
    crowd.validateFollowupGraph = .ok () ∧
    compileContinuationPolicy crowd zeros ((List.finRange 33).map fun n => .name (crowdName n)) =
      .error (.config "continuation policy reaches more than 32 queues") := by
  refine ⟨⟨?_, leafTask, List.mem_cons_self, .refl⟩, by decide +kernel, by decide +kernel, by decide +kernel⟩
  have leaf : ((compileContinuationPolicy loopRegistry zeros [.name "leaf"]).toOption.any fun p =>
      decide (p.manifest.parents = [])) = true := by decide +kernel
  obtain ⟨p, compiled, none⟩ := (Option.any_eq_true _ _).mp leaf
  exact ⟨p, toOption_eq_some.mp compiled, of_decide_eq_true none⟩

end Taskq.Continuations
