import TelemetryCore.Invariants

namespace TelemetryCore

/-!
# What `remove_nodes` leaves alone

A node that a removal does not target keeps its mapping, its record and its pending deltas.
Inside the chain being removed from this rests on a count: the whole-chain branch is taken only
when the nodes to remove are as many as the chain's entry counts, and an entry that counts at
all counts every held node of its chain, so a held node outside the targets rules that branch
out.
-/

namespace OrdinaryState

/-- A state holding `nodeId` and distinct other nodes of the same chain holds more nodes in the
chain than there are others. -/
theorem length_lt_nodeCount {genesisHash : BlockHash} {nodeId : NodeId} (chain : nodeId.chain = genesisHash) :
    ∀ (st : OrdinaryState) (others : List NodeId), others.Nodup → nodeId ∉ others →
      (st.node nodeId).isSome → (∀ other ∈ others, other.chain = genesisHash ∧ (st.node other).isSome) →
      others.length < st.nodeCount genesisHash
  | st, [], _, _, held, _ => by
    obtain ⟨removed, st', removal⟩ := exists_removeNode_of_held held
    have fewer := (removeNode_removes removal).count_succ
    rw [chain] at fewer
    simp only [List.length_nil]
    omega
  | st, other :: rest, nodup, outside, held, others => by
    rw [List.nodup_cons] at nodup
    have different : nodeId ≠ other := fun same => outside (same ▸ List.mem_cons_self _ _)
    obtain ⟨otherChain, otherHeld⟩ := others other (List.mem_cons_self _ _)
    obtain ⟨removed, st', removal⟩ := exists_removeNode_of_held otherHeld
    have removes := removeNode_removes removal
    have later := length_lt_nodeCount chain st' rest nodup.2
      (fun member => outside (List.mem_cons_of_mem _ member))
      (by rwa [removes.frame nodeId different])
      (fun next member => by
        have ne : next ≠ other := fun same => nodup.1 (same ▸ member)
        obtain ⟨nextChain, nextHeld⟩ := others next (List.mem_cons_of_mem _ member)
        exact ⟨nextChain, by rwa [removes.frame next ne]⟩)
    have fewer := removes.count_succ
    rw [otherChain] at fewer
    simp only [List.length_cons]
    omega

end OrdinaryState

open OrdinaryState

namespace State

variable {s : State}

/-- The added record `nodeId`'s chain entry holds for it. -/
def pendingAdded (s : State) (nodeId : NodeId) : Option Node :=
  (s.chains.lookup nodeId.chain).bind (·.addedNodes.lookup nodeId)

/-- The updates `nodeId`'s chain entry holds for it. -/
def pendingUpdates (s : State) (nodeId : NodeId) : Option NodeUpdates :=
  (s.chains.lookup nodeId.chain).bind (·.updatedNodes.lookup nodeId)

/-- `nodeId`'s chain has an entry, and it counts the chain's held nodes. -/
def Counted (s : State) (nodeId : NodeId) : Prop :=
  ∃ updates, s.chains.lookup nodeId.chain = some updates ∧
    updates.nodeCount = s.state.nodeCount nodeId.chain

/-- What a removal leaves of a node it does not target. -/
structure Untouched (s s' : State) (nodeId : NodeId) (pair : ConnId × ShardNodeId) : Prop where
  mapped : (nodeId, pair) ∈ s'.nodeIds.pairs
  node : s'.state.node nodeId = s.state.node nodeId
  added : s'.pendingAdded nodeId = s.pendingAdded nodeId
  updated : s'.pendingUpdates nodeId = s.pendingUpdates nodeId
  counted : s.Counted nodeId → s'.Counted nodeId

namespace Untouched

variable {s' s'' : State} {nodeId : NodeId} {pair : ConnId × ShardNodeId}

theorem refl (mapped : (nodeId, pair) ∈ s.nodeIds.pairs) : Untouched s s nodeId pair :=
  ⟨mapped, rfl, rfl, rfl, id⟩

theorem trans (first : Untouched s s' nodeId pair) (second : Untouched s' s'' nodeId pair) :
    Untouched s s'' nodeId pair :=
  ⟨second.mapped, second.node.trans first.node, second.added.trans first.added,
    second.updated.trans first.updated, second.counted ∘ first.counted⟩

end Untouched

/-! ## One chain -/

/-- What the loop of `remove_nodes` leaves alone: the mappings and records of nodes it is not
given, their deltas in the carried entry, and other chains' counts; and it keeps the carried
count equal to the chain's. -/
theorem removeChainNodes_frame {g : BlockHash} :
    ∀ (s : State) (updates : ChainUpdates) (nodeIds : List NodeId), (∀ nodeId ∈ nodeIds, nodeId.chain = g) →
      let result := s.removeChainNodes updates nodeIds
      (∀ pair ∈ s.nodeIds.pairs, pair.1 ∉ nodeIds → pair ∈ result.1.nodeIds.pairs) ∧
      (∀ other ∉ nodeIds, result.1.state.node other = s.state.node other) ∧
      (∀ other ∉ nodeIds, result.2.addedNodes.lookup other = updates.addedNodes.lookup other ∧
        result.2.updatedNodes.lookup other = updates.updatedNodes.lookup other) ∧
      (∀ hash ≠ g, result.1.state.nodeCount hash = s.state.nodeCount hash) ∧
      (updates.nodeCount = s.state.nodeCount g → result.2.nodeCount = result.1.state.nodeCount g)
  | s, updates, [], _ => ⟨fun _ member _ => member, fun _ _ => rfl, fun _ _ => ⟨rfl, rfl⟩,
      fun _ _ => rfl, id⟩
  | s, updates, nodeId :: rest, chained => by
    have inChain := chained nodeId (List.mem_cons_self _ _)
    have restChained := fun other member => chained other (List.mem_cons_of_mem _ member)
    have notHere : ∀ {other}, other ∉ nodeId :: rest → other ≠ nodeId :=
      fun outside same => outside (same ▸ List.mem_cons_self _ _)
    have notLater : ∀ {other}, other ∉ nodeId :: rest → other ∉ rest :=
      fun outside later => outside (List.mem_cons_of_mem _ later)
    have unmapped : ∀ pair ∈ s.nodeIds.pairs, pair.1 ∉ nodeId :: rest →
        pair ∈ (s.nodeIds.removeByLeft nodeId).pairs := fun pair member outside =>
      BiMap.mem_removeByLeft.mpr ⟨member, notHere outside⟩
    unfold State.removeChainNodes
    dsimp only
    split
    · rename_i removed st' removal
      have removes := removeNode_removes removal
      obtain ⟨pairs, nodes, deltas, counts, carried⟩ := removeChainNodes_frame _ _ rest restChained
      refine ⟨fun pair member outside => pairs pair (unmapped pair member outside) (notLater outside),
        fun other outside => ?_, fun other outside => ?_, fun hash different => ?_, fun _ => carried ?_⟩
      · rw [nodes other (notLater outside)]
        exact removes.frame other (notHere outside)
      · rw [(deltas other (notLater outside)).1, (deltas other (notLater outside)).2]
        split <;> simp [AList.lookup_erase_ne (notHere outside)]
      · rw [counts hash different]
        exact removes.count_frame hash (inChain ▸ different)
      · split <;> exact inChain ▸ removes.chainNodeCount_eq
    · obtain ⟨pairs, nodes, deltas, counts, carried⟩ := removeChainNodes_frame _ _ rest restChained
      exact ⟨fun pair member outside => pairs pair (unmapped pair member outside) (notLater outside),
        fun other outside => nodes other (notLater outside),
        fun other outside => deltas other (notLater outside), counts, carried⟩

/-- `remove_nodes` on one chain leaves the mappings and records of nodes it is not given, and
every other chain's entry and count. -/
theorem removeChain_frame {g : BlockHash} {nodeIds : List NodeId}
    (chained : ∀ nodeId ∈ nodeIds, nodeId.chain = g) :
    let result := s.removeChain g nodeIds
    (∀ pair ∈ s.nodeIds.pairs, pair.1 ∉ nodeIds → pair ∈ result.nodeIds.pairs) ∧
    (∀ other ∉ nodeIds, result.state.node other = s.state.node other) ∧
    (∀ hash ≠ g, result.chains.lookup hash = s.chains.lookup hash ∧
      result.state.nodeCount hash = s.state.nodeCount hash) := by
  unfold State.removeChain
  split
  · exact ⟨fun _ member _ => member, fun _ _ => rfl, fun _ _ => ⟨rfl, rfl⟩⟩
  split
  · exact ⟨fun _ member _ => member, fun _ _ => rfl,
      fun hash different => ⟨AList.lookup_erase_ne different, rfl⟩⟩
  · obtain ⟨pairs, nodes, -, counts, -⟩ := removeChainNodes_frame s _ nodeIds chained
    exact ⟨pairs, nodes, fun hash different =>
      ⟨by simp [AList.lookup_insert_ne different], counts hash different⟩⟩

/-- Within the chain it removes from, `remove_nodes` leaves a mapped node it is not given
untouched: the whole-chain branch cannot be taken while such a node is held. -/
theorem removeChain_untouched {located : Prop} (cons : Consistent located s) {g : BlockHash}
    {nodeIds : List NodeId} (targets : ∀ target ∈ nodeIds, target.chain = g ∧ (s.state.node target).isSome)
    (nodup : nodeIds.Nodup) (nonempty : nodeIds ≠ []) {nodeId : NodeId} {pair : ConnId × ShardNodeId}
    (mapped : (nodeId, pair) ∈ s.nodeIds.pairs) (untargeted : nodeId ∉ nodeIds) :
    Untouched s (s.removeChain g nodeIds) nodeId pair := by
  have chained := fun target member => (targets target member).1
  obtain ⟨pairs, nodes, others⟩ := removeChain_frame (s := s) chained
  by_cases inChain : nodeId.chain = g
  swap
  · obtain ⟨entry, count⟩ := others nodeId.chain inChain
    refine ⟨pairs _ mapped untargeted, nodes nodeId untargeted, ?_, ?_, ?_⟩
    · simp only [pendingAdded, entry]
    · simp only [pendingUpdates, entry]
    · simp only [Counted, entry, count, imp_self]
  subst g
  unfold State.removeChain
  split
  · exact .refl mapped
  rename_i updates found
  split
  · rename_i whole
    have counted : updates.nodeCount = s.state.nodeCount nodeId.chain :=
      ((cons.entries _ _ found).count.resolve_left (by
        rw [whole]; exact fun empty => nonempty (List.length_eq_zero.mp empty)))
    have fewer := length_lt_nodeCount rfl s.state nodeIds nodup untargeted
      (cons.mapped_held nodeId pair mapped) targets
    omega
  · obtain ⟨loopPairs, loopNodes, deltas, -, carried⟩ := removeChainNodes_frame s updates nodeIds chained
    refine ⟨loopPairs _ mapped untargeted, loopNodes nodeId untargeted, ?_, ?_, ?_⟩
    · simp [pendingAdded, found, (deltas nodeId untargeted).1]
    · simp [pendingUpdates, found, (deltas nodeId untargeted).2]
    · rintro ⟨entry, lookup, count⟩
      rw [found] at lookup
      cases lookup
      exact ⟨_, by simp, carried count⟩

/-! ## Whole removals -/

/-- The facts `remove_nodes` needs of each of its groups. -/
theorem groupByChain_facts {st : OrdinaryState} {targets : List NodeId}
    {group : Σ _ : BlockHash, List NodeId} (member : group ∈ (groupByChain st targets).entries) :
    group.2 ⊆ targets ∧ group.2.Sublist targets ∧ group.2 ≠ [] ∧
      ∀ target ∈ group.2, target.chain = group.1 := by
  have found : (groupByChain st targets).lookup group.1 = some group.2 := AList.mem_lookup_iff.mpr member
  have isGroup := groupByChain_lookup found
  refine ⟨isGroup ▸ List.filter_subset' _, isGroup ▸ List.filter_sublist _, ?_,
    chain_of_mem_groupByChain member⟩
  have known : group.1 ∈ groupByChain st targets := AList.lookup_isSome.mp (by simp [found])
  obtain ⟨target, inTargets, filed⟩ := groupByChain_mem.mp known
  rw [isGroup]
  exact List.ne_nil_of_mem (List.mem_filter.mpr ⟨inTargets, by simpa using filed⟩)

/-- `remove_nodes` leaves a mapped node it is not given untouched, when its targets are
distinct held nodes. -/
theorem removeNodes_untouched {located : Prop} (cons : Consistent located s) {targets : List NodeId}
    (held : ∀ target ∈ targets, (s.state.node target).isSome) (nodup : targets.Nodup)
    {nodeId : NodeId} {pair : ConnId × ShardNodeId} (mapped : (nodeId, pair) ∈ s.nodeIds.pairs)
    (untargeted : nodeId ∉ targets) : Untouched s (s.removeNodes targets) nodeId pair := by
  unfold State.removeNodes
  have facts := fun group (member : group ∈ (groupByChain s.state targets).entries) => groupByChain_facts member
  have nodupKeys := (groupByChain s.state targets).nodupKeys
  generalize (groupByChain s.state targets).entries = groups at facts nodupKeys
  suffices ∀ current : State, Consistent located current → Untouched s current nodeId pair →
      (∀ target ∈ targets, target.chain ∈ groups.keys → current.state.node target = s.state.node target) →
      Untouched s (groups.foldl (fun s entry => s.removeChain entry.1 entry.2) current) nodeId pair from
    this s cons (.refl mapped) (fun _ _ _ => rfl)
  induction groups with
  | nil => exact fun _ _ untouched _ => untouched
  | cons group rest later =>
    intro current consistent untouched unchanged
    rw [List.nodupKeys_cons] at nodupKeys
    obtain ⟨inTargets, sublist, nonempty, chained⟩ := facts group (List.mem_cons_self _ _)
    have stillHeld : ∀ target ∈ group.2, target.chain = group.1 ∧ (current.state.node target).isSome :=
      fun target member => ⟨chained target member, by
        rw [unchanged target (inTargets member) (by simp [List.keys, chained target member])]
        exact held target (inTargets member)⟩
    refine later (fun other member => facts other (List.mem_cons_of_mem _ member)) nodupKeys.2 _
      (consistent.removeChain chained)
      (untouched.trans (removeChain_untouched consistent stillHeld (nodup.sublist sublist) nonempty
        untouched.mapped (fun member => untargeted (inTargets member))))
      (fun target member inRest => ?_)
    have otherChain : target.chain ≠ group.1 := fun same => nodupKeys.1 (same ▸ inRest)
    rw [(removeChain_frame chained).2.1 target (fun inGroup => otherChain (chained target inGroup))]
    exact unchanged target member (by simp [List.keys] at inRest ⊢; exact .inr inRest)

/-- `remove_node` leaves every node mapped to another pair untouched. -/
theorem removeNode_untouched {located : Prop} (cons : Consistent located s) {shardConnId : ConnId}
    {localId : ShardNodeId} {nodeId : NodeId} {pair : ConnId × ShardNodeId}
    (mapped : (nodeId, pair) ∈ s.nodeIds.pairs) (other : pair ≠ (shardConnId, localId)) :
    Untouched s (s.removeNode shardConnId localId) nodeId pair := by
  rcases removeNode_cases (s := s) shardConnId localId with ⟨-, same⟩ | ⟨target, targetMapped, result⟩
  · rw [same]; exact .refl mapped
  rw [result]
  have stillMapped : (nodeId, pair) ∈ (s.nodeIds.removeByRight (shardConnId, localId)).2.pairs :=
    BiMap.mem_removeByRight.mpr ⟨mapped, other⟩
  have first : Untouched s { s with nodeIds := (s.nodeIds.removeByRight (shardConnId, localId)).2 } nodeId pair :=
    ⟨stillMapped, rfl, rfl, rfl, id⟩
  refine first.trans (removeNodes_untouched (cons.unmap fun _ member => (BiMap.mem_removeByRight.mp member).1) ?_
    (List.nodup_singleton _) stillMapped ?_)
  · simpa using cons.mapped_held _ _ targetMapped
  · simp only [List.mem_singleton]
    rintro rfl
    exact other (BiMap.right_unique mapped targetMapped)

/-- `disconnect_node` leaves every node mapped from another connection untouched. -/
theorem disconnectNode_untouched {located : Prop} (cons : Consistent located s) {shardConnId : ConnId}
    {nodeId : NodeId} {pair : ConnId × ShardNodeId} (mapped : (nodeId, pair) ∈ s.nodeIds.pairs)
    (other : pair.1 ≠ shardConnId) : Untouched s (s.disconnectNode shardConnId) nodeId pair := by
  refine removeNodes_untouched cons ?_ ?_ mapped ?_
  · intro target member
    obtain ⟨entry, inPairs, rfl⟩ := List.mem_map.mp member
    exact cons.mapped_held entry.1 entry.2 (List.mem_filter.mp inPairs).1
  · exact s.nodeIds.left_nodup.sublist ((List.filter_sublist _).map _)
  · intro member
    obtain ⟨entry, inPairs, same⟩ := List.mem_map.mp member
    rw [List.mem_filter] at inPairs
    subst same
    have := BiMap.right_unique mapped inPairs.1
    subst this
    exact other (of_decide_eq_true inPairs.2)

end State

/-- In every reachable state, `remove_node` and `disconnect_node` leave each node mapped to a
pair they do not target untouched: it keeps its mapping, its record, its pending added and
updated deltas, and an entry counting its chain. -/
theorem removal_untouched {allowed : State → Op → Prop} {run : Run} (reach : Reachable allowed run)
    {nodeId : NodeId} {pair : ConnId × ShardNodeId} (mapped : (nodeId, pair) ∈ run.state.nodeIds.pairs) :
    (∀ shardConnId localId, pair ≠ (shardConnId, localId) →
      State.Untouched run.state (run.state.removeNode shardConnId localId) nodeId pair) ∧
    ∀ shardConnId, pair.1 ≠ shardConnId →
      State.Untouched run.state (run.state.disconnectNode shardConnId) nodeId pair :=
  ⟨fun _ _ other => State.removeNode_untouched reach.consistent mapped other,
    fun _ other => State.disconnectNode_untouched reach.consistent mapped other⟩

theorem removal_untouched_admitted :
    let run := (Run.fresh [] 10 [] true).steps [.addNode 7 1 1 ⟨"A", "x"⟩, .addNode 7 2 1 ⟨"A", "y"⟩]
    (⟨7, 0⟩, (1, 1)) ∈ run.state.nodeIds.pairs ∧
      (∀ shardConnId localId, (1, 1) ≠ (shardConnId, localId) →
        State.Untouched run.state (run.state.removeNode shardConnId localId) ⟨7, 0⟩ (1, 1)) ∧
      ∀ shardConnId, 1 ≠ shardConnId →
        State.Untouched run.state (run.state.disconnectNode shardConnId) ⟨7, 0⟩ (1, 1) :=
  have mapped : (⟨7, 0⟩, (1, 1)) ∈ ((Run.fresh [] 10 [] true).steps
      [.addNode 7 1 1 ⟨"A", "x"⟩, .addNode 7 2 1 ⟨"A", "y"⟩]).state.nodeIds.pairs := by decide
  ⟨mapped, removal_untouched (Reachable.steps _ (Reachable.fresh [] 10 [] true : Reachable FreshPairs _)
    (by decide)) mapped⟩

/-- Disconnecting the only node of a chain takes the whole-chain branch of `remove_nodes`: the
node stays held and stays mapped from the disconnected connection. -/
theorem disconnectNode_last_node_stays_mapped :
    ∃ run, run = (Run.fresh [] 10 [] true).steps [.addNode 7 1 1 ⟨"A", "x"⟩, .disconnectNode 1] ∧
      Reachable (fun _ _ => True) run ∧ (⟨7, 0⟩, (1, 1)) ∈ run.state.nodeIds.pairs ∧
      (run.state.state.node ⟨7, 0⟩).isSome :=
  ⟨_, rfl, .steps _ (.fresh [] 10 [] true) (by decide), by decide⟩

end TelemetryCore
